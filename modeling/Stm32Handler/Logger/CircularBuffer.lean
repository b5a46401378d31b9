import Stm32Handler.Lib.Ring

/-!
# The circular buffer

`circular_buffer.h`: a ring with a separate count. `data` is the memory the
`unsigned char *data` pointer names, indexed from it; the indices are Nat
because they never pass `size`, so the 32-bit increments do not wrap
(`Refines.headLt`, `Refines.tailLt`, `Refines.countLe`).

`Refines cb q` ties the ring to the bounded queue `q` it stands for.
`apply_refines` is the step lemma of the three operations and
`run_refines_fifo` the run lemma.
-/

namespace Stm32Handler.Logger

structure CircularBuffer where
  size : ℕ
  currentSize : ℕ
  head : ℕ
  tail : ℕ
  data : ℕ → UInt8

namespace CircularBuffer

/-- `CircularBufferInit`. -/
def init (s : ℕ) (d : ℕ → UInt8) : CircularBuffer :=
  { size := s, currentSize := 0, head := 0, tail := 0, data := d }

/-- `CircularBufferIsEmpty`. -/
def isEmpty (cb : CircularBuffer) : Bool := cb.currentSize == 0

/-- `data[head++] = c` and the wrap of `head`, with the count still to come. -/
def store (cb : CircularBuffer) (c : UInt8) : CircularBuffer :=
  { cb with
    data := Function.update cb.data cb.head c
    head := if cb.head + 1 = cb.size then 0 else cb.head + 1 }

/-- `CircularBufferPut`. -/
def put (cb : CircularBuffer) (c : UInt8) : CircularBuffer :=
  if cb.currentSize < cb.size then
    { cb.store c with currentSize := cb.currentSize + 1 }
  else cb

/-- `CircularBufferGet`: the byte assigned to the macro's second argument, if
any, and the ring after it. -/
def get (cb : CircularBuffer) : Option UInt8 × CircularBuffer :=
  if cb.currentSize ≠ 0 then
    (some (cb.data cb.tail),
      { cb with
        currentSize := cb.currentSize - 1
        tail := if cb.tail + 1 = cb.size then 0 else cb.tail + 1 })
  else (none, cb)

/-- `CircularBufferFlush`. -/
def flush (cb : CircularBuffer) : CircularBuffer :=
  { cb with currentSize := 0, head := 0, tail := 0 }

/-- The bytes at `tail, tail + 1, …` (mod `size`), `currentSize` of them. -/
def bytes (cb : CircularBuffer) : List UInt8 := window cb.data cb.size cb.tail cb.currentSize

@[simp] theorem length_bytes (cb : CircularBuffer) : cb.bytes.length = cb.currentSize :=
  length_window ..

@[simp] theorem isEmpty_iff (cb : CircularBuffer) : cb.isEmpty = true ↔ cb.currentSize = 0 := by
  simp [isEmpty]

theorem put_full {cb : CircularBuffer} (h : cb.size ≤ cb.currentSize) (c : UInt8) :
    cb.put c = cb := if_neg (by omega)

theorem get_empty {cb : CircularBuffer} (h : cb.currentSize = 0) : cb.get = (none, cb) := by
  simp [get, h]

@[simp] theorem put_size (cb : CircularBuffer) (c : UInt8) : (cb.put c).size = cb.size := by
  unfold put store; split <;> rfl

@[simp] theorem get_size (cb : CircularBuffer) : cb.get.2.size = cb.size := by
  unfold get; split <;> rfl

@[simp] theorem get_data (cb : CircularBuffer) : cb.get.2.data = cb.data := by
  unfold get; split <;> rfl

/-! ## The ring stands for a queue -/

/-- The ring is well formed and its bytes are the queue `q`. -/
structure Refines (cb : CircularBuffer) (q : List UInt8) : Prop where
  headLt : cb.head < cb.size
  tailLt : cb.tail < cb.size
  countLe : cb.currentSize ≤ cb.size
  headEq : cb.head = (cb.tail + cb.currentSize) % cb.size
  bytesEq : cb.bytes = q

theorem Refines.length_eq {cb : CircularBuffer} {q : List UInt8} (h : cb.Refines q) :
    q.length = cb.currentSize := by
  rw [← h.bytesEq, length_bytes]

theorem init_refines {s : ℕ} (hs : 0 < s) (d : ℕ → UInt8) : (init s d).Refines [] where
  headLt := hs
  tailLt := hs
  countLe := Nat.zero_le _
  headEq := by simp [init]
  bytesEq := rfl

theorem put_refines {cb : CircularBuffer} {q : List UInt8} (h : cb.Refines q) (c : UInt8) :
    (cb.put c).Refines (fifoPut cb.size q c) := by
  have hlen := h.length_eq
  by_cases hroom : cb.currentSize < cb.size
  · have hpos : 0 < cb.size := by omega
    rw [fifoPut, if_pos (by omega)]
    simp only [put, if_pos hroom, store, wrap_eq_mod h.headLt]
    refine ⟨Nat.mod_lt _ hpos, h.tailLt, hroom, ?_, ?_⟩
    · simp only
      rw [h.headEq, Nat.mod_add_mod, Nat.add_assoc]
    · simp only [bytes]
      rw [h.headEq, window_push hroom, ← h.bytesEq, bytes]
  · rw [fifoPut, if_neg (by omega), put_full (by omega)]
    exact h

theorem get_refines {cb : CircularBuffer} {q : List UInt8} (h : cb.Refines q) :
    cb.get.1 = (fifoGet q).1 ∧ cb.get.2.Refines (fifoGet q).2 := by
  cases q with
  | nil =>
    have h0 : cb.currentSize = 0 := h.length_eq.symm
    rw [get_empty h0]
    exact ⟨rfl, h⟩
  | cons x q =>
    have hn : cb.currentSize = q.length + 1 := h.length_eq.symm
    have hb : window cb.data cb.size cb.tail cb.currentSize = x :: q := h.bytesEq
    rw [hn, window_cons, Nat.mod_eq_of_lt h.tailLt, List.cons.injEq] at hb
    have hpos : 0 < cb.size := Nat.zero_lt_of_lt h.tailLt
    simp only [get, hn, Nat.add_one_ne_zero, ne_eq, not_false_eq_true, ↓reduceIte, fifoGet,
      Option.some.injEq, Nat.add_sub_cancel, wrap_eq_mod h.tailLt]
    refine ⟨hb.1, h.headLt, Nat.mod_lt _ hpos, ?_, ?_, ?_⟩
    · have := h.countLe
      simp only; omega
    · simp only
      rw [h.headEq, hn, Nat.mod_add_mod, Nat.add_assoc, Nat.add_comm 1]
    · simp only [bytes]
      rw [window_mod, hb.2]

theorem flush_refines {cb : CircularBuffer} {q : List UInt8} (h : cb.Refines q) :
    cb.flush.Refines [] :=
  init_refines (Nat.zero_lt_of_lt h.tailLt) cb.data

/-! ## Runs of operations -/

inductive Op where
  | put (c : UInt8)
  | get
  | flush

/-- One macro call: the byte it fetched, if any, and the ring after it. -/
def apply (cb : CircularBuffer) : Op → Option UInt8 × CircularBuffer
  | .put c => (none, cb.put c)
  | .get => cb.get
  | .flush => (none, cb.flush)

/-- The fetched bytes of a run, in order, and the ring after it. -/
def run (cb : CircularBuffer) : List Op → List UInt8 × CircularBuffer
  | [] => ([], cb)
  | op :: ops =>
    let r := cb.apply op
    let rs := r.2.run ops
    (r.1.toList ++ rs.1, rs.2)

/-- The same operation on a queue of capacity `cap`. -/
def fifoApply (cap : ℕ) (q : List UInt8) : Op → Option UInt8 × List UInt8
  | .put c => (none, fifoPut cap q c)
  | .get => fifoGet q
  | .flush => (none, [])

/-- The same run on a queue of capacity `cap`. -/
def fifoRun (cap : ℕ) (q : List UInt8) : List Op → List UInt8 × List UInt8
  | [] => ([], q)
  | op :: ops =>
    let r := fifoApply cap q op
    let rs := fifoRun cap r.2 ops
    (r.1.toList ++ rs.1, rs.2)

theorem apply_refines {cb : CircularBuffer} {q : List UInt8} (h : cb.Refines q) (op : Op) :
    (cb.apply op).1 = (fifoApply cb.size q op).1 ∧
      (cb.apply op).2.Refines (fifoApply cb.size q op).2 := by
  cases op with
  | put c => exact ⟨rfl, put_refines h c⟩
  | get => exact get_refines h
  | flush => exact ⟨rfl, flush_refines h⟩

@[simp] theorem apply_size (cb : CircularBuffer) (op : Op) : (cb.apply op).2.size = cb.size := by
  cases op with
  | put c => exact put_size cb c
  | get => exact get_size cb
  | flush => rfl

theorem run_refines_fifo {cb : CircularBuffer} {q : List UInt8} (h : cb.Refines q)
    (ops : List Op) :
    (cb.run ops).1 = (fifoRun cb.size q ops).1 ∧
      (cb.run ops).2.Refines (fifoRun cb.size q ops).2 := by
  induction ops generalizing cb q with
  | nil => exact ⟨rfl, h⟩
  | cons op ops ih =>
    obtain ⟨hout, hnext⟩ := apply_refines h op
    obtain ⟨houts, hend⟩ := ih hnext
    rw [apply_size] at houts hend
    simp only [run, fifoRun]
    exact ⟨by rw [hout, houts], hend⟩

@[simp] theorem run_size (cb : CircularBuffer) (ops : List Op) : (cb.run ops).2.size = cb.size := by
  induction ops generalizing cb with
  | nil => rfl
  | cons op ops ih => simp only [run, ih, apply_size]

/-- One operation writes no cell from `size` on. -/
theorem apply_data_out {cb : CircularBuffer} {q : List UInt8} (h : cb.Refines q) (op : Op) {i : ℕ}
    (hi : cb.size ≤ i) : (cb.apply op).2.data i = cb.data i := by
  cases op with
  | put c =>
    have := h.headLt
    simp only [apply, put, store]
    split
    · exact Function.update_of_ne (by omega) _ _
    · rfl
  | get => simp only [apply, get_data]
  | flush => rfl

/-- No run writes a cell from `size` on. -/
theorem run_data_out {cb : CircularBuffer} {q : List UInt8} (h : cb.Refines q) (ops : List Op)
    {i : ℕ} (hi : cb.size ≤ i) : (cb.run ops).2.data i = cb.data i := by
  induction ops generalizing cb q with
  | nil => rfl
  | cons op ops ih =>
    simp only [run]
    rw [ih (apply_refines h op).2 (by rwa [apply_size]), apply_data_out h op hi]

/-- **The ring refines a bounded queue**: after any run of the three macros
from `CircularBufferInit`, the ring holds the bytes of the queue that took the
same run, everything fetched on the way is what that queue gave out, and the
next `CircularBufferPut` or `CircularBufferGet` behaves like the queue's. -/
theorem circularBuffer_refines_fifo (s : ℕ) (hs : 1 ≤ s) (d : ℕ → UInt8) (ops : List Op) :
    let cb := ((init s d).run ops).2
    let q := (fifoRun s [] ops).2
    cb.head < s ∧ cb.tail < s ∧ cb.currentSize ≤ s ∧ cb.head = (cb.tail + cb.currentSize) % s ∧
      window cb.data s cb.tail cb.currentSize = q ∧
      ((init s d).run ops).1 = (fifoRun s [] ops).1 ∧
      (∀ c, cb.currentSize = s → cb.put c = cb) ∧
      (cb.currentSize = 0 → cb.get = (none, cb)) ∧
      (cb.currentSize ≠ 0 → ∃ x rest, q = x :: rest ∧ cb.get.1 = some x ∧ cb.get.2.bytes = rest) ∧
      ∀ i, s ≤ i → cb.data i = d i := by
  intro cb q
  have hinit : (init s d).Refines [] := init_refines hs d
  obtain ⟨hout, h⟩ := run_refines_fifo hinit ops
  have hsize : cb.size = s := run_size (init s d) ops
  have h' : cb.Refines q := h
  have hbytes : window cb.data s cb.tail cb.currentSize = q := by
    rw [← h'.bytesEq, bytes, hsize]
  refine ⟨hsize ▸ h'.headLt, hsize ▸ h'.tailLt, hsize ▸ h'.countLe, ?_, hbytes, hout,
    fun c hfull => put_full (by omega) c, get_empty, fun hne => ?_, fun i hi => run_data_out hinit ops hi⟩
  · have := h'.headEq
    rwa [hsize] at this
  · obtain ⟨hget, hrest⟩ := get_refines h'
    have hlen := h'.length_eq
    cases hq : q with
    | nil => rw [hq] at hlen; exact absurd hlen.symm hne
    | cons x rest =>
      rw [hq] at hget hrest
      exact ⟨x, rest, rfl, hget, hrest.bytesEq⟩

/-- A ring of two filled, drained by one and filled again wraps both indices. -/
theorem circularBuffer_refines_fifo_wrap :
    (fifoRun 2 [] [.put 1, .put 2, .put 3, .get, .put 4]).2 = [2, 4] ∧
      let cb := ((init 2 fun _ => 0).run [.put 1, .put 2, .put 3, .get, .put 4]).2
      window cb.data 2 cb.tail cb.currentSize = [2, 4] := by
  refine ⟨by decide, ?_⟩
  have := (circularBuffer_refines_fifo 2 (by decide) (fun _ => 0)
    [.put 1, .put 2, .put 3, .get, .put 4]).2.2.2.2.1
  exact this.trans (by decide)

end CircularBuffer

end Stm32Handler.Logger
