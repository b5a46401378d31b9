import Mathlib.Data.BitVec
import Mathlib.Data.List.Basic
import Stm32Handler.Lib.Bytes

/-!
# The receive buffer of the web server

What `http_run_task` of `httpd.c` does with a chain of pbufs: it copies them into
`rx_buffer` one behind the other, ends them with a NUL and notes their length. The
loop stops before a pbuf when the buffer is full, but a pbuf it takes it copies
whole. The length is counted in 16 bits and kept in 8.
-/

namespace Stm32Handler.Web

def rxBufferMaxLen : ℕ := 1600

/-- A pbuf: its length is a 16-bit number. -/
structure Pbuf where
  payload : List Byte
  len_lt : payload.length < 2 ^ 16

/-- `HttpServer_t`; `rx_buffer` stands for all memory from its first byte on. -/
structure HttpServer where
  fullPackage : Byte
  rxLength : Byte
  rxBuffer : Buf

/-- The copy loop: `dst_ptr` as an index of `rx_buffer`, `copylen`, the buffer and the
indices written so far. -/
structure Copy where
  dstPtr : ℕ
  copylen : BitVec 16
  rxBuffer : Buf
  written : List ℕ

/-- A round of the loop. -/
def Copy.memcpy (c : Copy) (pbuffer : Pbuf) : Copy where
  dstPtr := c.dstPtr + pbuffer.payload.length
  copylen := c.copylen + BitVec.ofNat 16 pbuffer.payload.length
  rxBuffer := c.rxBuffer.fill c.dstPtr pbuffer.payload
  written := c.written ++ List.range' c.dstPtr pbuffer.payload.length

def copyLoop : List Pbuf → Copy → Copy
  | [], c => c
  | pbuffer :: next, c =>
    if c.copylen.toNat < rxBufferMaxLen - 1 then copyLoop next (c.memcpy pbuffer) else c

/-- What the task does with the chain of a netbuf: the server behind it, and the
indices of `rx_buffer` written. -/
def receive (chain : List Pbuf) (server : HttpServer) : HttpServer × List ℕ :=
  let c := copyLoop chain
    { dstPtr := 0, copylen := 0, rxBuffer := server.rxBuffer, written := [] }
  ({ server with
      rxLength := c.copylen.setWidth 8
      rxBuffer := Function.update c.rxBuffer c.copylen.toNat 0 },
    c.written ++ [c.copylen.toNat])

/-- The bytes of a chain. -/
def bytes (chain : List Pbuf) : List Byte := chain.flatMap Pbuf.payload

/-- Nothing is written past the buffer, which gets the bytes of the chain, as many as
fit, and a NUL. -/
structure CopiesRight (chain : List Pbuf) (server : HttpServer) : Prop where
  in_bounds : ∀ i ∈ (receive chain server).2, i < rxBufferMaxLen
  stored : (receive chain server).1.rxBuffer =
    server.rxBuffer.fill 0 ((bytes chain).take (rxBufferMaxLen - 1) ++ [0])

/-- And `rx_length` is their number. -/
structure ReceivesRight (chain : List Pbuf) (server : HttpServer) : Prop
    extends CopiesRight chain server where
  length_eq : (receive chain server).1.rxLength.toNat =
    min (bytes chain).length (rxBufferMaxLen - 1)

/-! ## The copy loop -/

@[simp] theorem bytes_nil : bytes [] = [] := rfl

@[simp] theorem bytes_cons (p : Pbuf) (chain : List Pbuf) :
    bytes (p :: chain) = p.payload ++ bytes chain := List.flatMap_cons

@[simp] theorem bytes_append (pre suf : List Pbuf) : bytes (pre ++ suf) = bytes pre ++ bytes suf :=
  List.flatMap_append

/-- The loop with `vs` copied. -/
def copied (b : Buf) (vs : List Byte) : Copy where
  dstPtr := vs.length
  copylen := BitVec.ofNat 16 vs.length
  rxBuffer := b.fill 0 vs
  written := List.range' 0 vs.length

theorem memcpy_copied (b : Buf) (vs : List Byte) (p : Pbuf) :
    (copied b vs).memcpy p = copied b (vs ++ p.payload) := by
  unfold Copy.memcpy copied
  rw [Buf.fill_append, List.length_append, BitVec.ofNat_add, Nat.zero_add,
    ← List.range'_append_1, Nat.zero_add]

/-- Where the loop stops when `vs` has been copied before it: it takes `pre` and
leaves `suf`. -/
structure Stops (vs : List Byte) (pre suf : List Pbuf) : Prop where
  full : suf = [] ∨ rxBufferMaxLen - 1 ≤ (vs ++ bytes pre).length % 2 ^ 16
  room : ∀ init p rest, pre = init ++ p :: rest →
    (vs ++ bytes init).length % 2 ^ 16 < rxBufferMaxLen - 1

theorem copyLoop_copied (b : Buf) (chain : List Pbuf) (vs : List Byte) :
    ∃ pre suf, chain = pre ++ suf ∧ Stops vs pre suf ∧
      copyLoop chain (copied b vs) = copied b (vs ++ bytes pre) := by
  induction chain generalizing vs with
  | nil =>
    refine ⟨[], [], rfl, ⟨.inl rfl, fun init p rest hcut => ?_⟩, ?_⟩
    · cases init <;> cases hcut
    · rw [bytes_nil, List.append_nil]
      rfl
  | cons p chain ih =>
    have hlen : (copied b vs).copylen.toNat = vs.length % 2 ^ 16 := BitVec.toNat_ofNat ..
    by_cases hroom : vs.length % 2 ^ 16 < rxBufferMaxLen - 1
    · obtain ⟨pre, suf, hcut, hstop, hloop⟩ := ih (vs ++ p.payload)
      refine ⟨p :: pre, suf, by rw [hcut]; rfl, ⟨?_, ?_⟩, ?_⟩
      · rw [bytes_cons, ← List.append_assoc]
        exact hstop.full
      · intro init q rest hpre
        cases init with
        | nil => rwa [bytes_nil, List.append_nil]
        | cons r init =>
          rw [List.cons_append, List.cons.injEq] at hpre
          obtain ⟨rfl, hpre⟩ := hpre
          rw [bytes_cons, ← List.append_assoc]
          exact hstop.room init q rest hpre
      · rw [copyLoop, hlen, if_pos hroom, memcpy_copied, hloop, bytes_cons, List.append_assoc]
    · refine ⟨[], p :: chain, rfl, ⟨.inr ?_, fun init q rest hcut => ?_⟩, ?_⟩
      · rw [bytes_nil, List.append_nil]
        exact Nat.le_of_not_lt hroom
      · cases init <;> cases hcut
      · rw [copyLoop, hlen, if_neg hroom, bytes_nil, List.append_nil]

/-- The outcome when the loop takes `pre`. -/
def received (pre : List Pbuf) (server : HttpServer) : HttpServer × List ℕ :=
  ({ server with
      rxLength := BitVec.ofNat 8 (bytes pre).length
      rxBuffer := Function.update (server.rxBuffer.fill 0 (bytes pre))
        ((bytes pre).length % 2 ^ 16) 0 },
    List.range' 0 (bytes pre).length ++ [(bytes pre).length % 2 ^ 16])

theorem receive_eq (chain : List Pbuf) (server : HttpServer) :
    ∃ pre suf, chain = pre ++ suf ∧ Stops [] pre suf ∧ receive chain server = received pre server := by
  obtain ⟨pre, suf, hcut, hstop, hloop⟩ := copyLoop_copied server.rxBuffer chain []
  refine ⟨pre, suf, hcut, hstop, ?_⟩
  have hlen : (BitVec.ofNat 16 (bytes pre).length).setWidth 8 = BitVec.ofNat 8 (bytes pre).length := by
    apply BitVec.eq_of_toNat_eq
    rw [BitVec.toNat_setWidth, BitVec.toNat_ofNat, BitVec.toNat_ofNat]
    exact Nat.mod_mod_of_dvd _ (by decide)
  have hstart : (⟨0, 0, server.rxBuffer, []⟩ : Copy) = copied server.rxBuffer [] := rfl
  rw [receive, hstart, hloop, List.nil_append]
  simp only [copied, received, hlen, BitVec.toNat_ofNat]

/-! ## When the copy is right -/

section Right

variable {pre suf : List Pbuf} {server : HttpServer}

theorem Stops.full_of_le (h : Stops [] pre suf) (hle : (bytes pre).length ≤ rxBufferMaxLen - 1) :
    suf = [] ∨ (bytes pre).length = rxBufferMaxLen - 1 := by
  have hfull := h.full
  rw [List.nil_append] at hfull
  unfold rxBufferMaxLen at *
  rcases hfull with hnil | hfull
  · exact .inl hnil
  · exact .inr (by omega)

/-- If what the loop takes fits, it takes all that fits. -/
theorem Stops.bytes_eq_take (h : Stops [] pre suf)
    (hle : (bytes pre).length ≤ rxBufferMaxLen - 1) :
    (bytes (pre ++ suf)).take (rxBufferMaxLen - 1) = bytes pre := by
  rcases h.full_of_le hle with rfl | hlen
  · rw [List.append_nil, List.take_of_length_le hle]
  · rw [bytes_append, List.take_left' hlen]

theorem Stops.copiesRight_iff (h : Stops [] pre suf)
    (hrun : receive (pre ++ suf) server = received pre server) :
    CopiesRight (pre ++ suf) server ↔ (bytes pre).length ≤ rxBufferMaxLen - 1 := by
  constructor
  · intro hright
    have hbounds := hright.in_bounds
    rw [hrun] at hbounds
    have hlen : (bytes pre).length ≤ rxBufferMaxLen := by
      by_contra hlong
      have hin : rxBufferMaxLen ∈ (received pre server).2 :=
        List.mem_append_left _ (List.mem_range'_1.2 ⟨Nat.zero_le _, by omega⟩)
      exact absurd (hbounds _ hin) (Nat.lt_irrefl _)
    -- the index of the NUL
    have hnul := hbounds _ (List.mem_append_right _ (List.mem_singleton.2 rfl))
    unfold rxBufferMaxLen at *
    omega
  · intro hle
    have hlen : (bytes pre).length % 2 ^ 16 = (bytes pre).length := by
      unfold rxBufferMaxLen at hle
      exact Nat.mod_eq_of_lt (by omega)
    refine ⟨fun i hi => ?_, ?_⟩
    · rw [hrun, received, hlen, List.mem_append, List.mem_range'_1, List.mem_singleton] at hi
      unfold rxBufferMaxLen at *
      omega
    · rw [h.bytes_eq_take hle, hrun, received, hlen, Buf.fill_append, Nat.zero_add]
      rfl

end Right

/-- **The copy is right exactly when** the chain fits or some of its pbufs fill the
buffer to the last byte. -/
theorem copies_right_iff (chain : List Pbuf) (server : HttpServer) :
    CopiesRight chain server ↔ (bytes chain).length ≤ rxBufferMaxLen - 1 ∨
      ∃ pre suf, chain = pre ++ suf ∧ (bytes pre).length = rxBufferMaxLen - 1 := by
  obtain ⟨pre, suf, rfl, hstop, hrun⟩ := receive_eq chain server
  rw [hstop.copiesRight_iff hrun]
  constructor
  · intro hle
    rcases hstop.full_of_le hle with rfl | hlen
    · rw [List.append_nil]
      exact .inl hle
    · exact .inr ⟨pre, suf, rfl, hlen⟩
  · rintro (hle | ⟨init, rest, hcut, hlen⟩)
    · rw [bytes_append, List.length_append] at hle
      omega
    · rcases List.append_eq_append_iff.1 hcut with ⟨more, rfl, -⟩ | ⟨more, rfl, -⟩
      · rw [bytes_append, List.length_append] at hlen
        omega
      · cases more with
        | nil => rw [List.append_nil, hlen]
        | cons p more =>
          -- the loop would have stopped before `p`
          have hroom := hstop.room init p more rfl
          rw [List.nil_append, hlen] at hroom
          unfold rxBufferMaxLen at hroom
          omega

/-- **A chain is received right exactly when** its length fits into `rx_length`. -/
theorem receives_right_iff (chain : List Pbuf) (server : HttpServer) :
    ReceivesRight chain server ↔ (bytes chain).length ≤ 255 := by
  constructor
  · intro hright
    have hlen := hright.length_eq
    have hlt := (receive chain server).1.rxLength.isLt
    unfold rxBufferMaxLen at hlen
    omega
  · intro hle
    obtain ⟨pre, suf, rfl, hstop, hrun⟩ := receive_eq chain server
    have hpre : (bytes pre).length ≤ (bytes (pre ++ suf)).length := by
      rw [bytes_append, List.length_append]
      exact Nat.le_add_right _ _
    have hfit : (bytes pre).length ≤ rxBufferMaxLen - 1 := by
      unfold rxBufferMaxLen
      omega
    refine ⟨(hstop.copiesRight_iff hrun).2 hfit, ?_⟩
    rcases hstop.full_of_le hfit with rfl | hlen
    · rw [List.append_nil] at *
      rw [hrun, received, BitVec.toNat_ofNat, Nat.mod_eq_of_lt (by omega), Nat.min_eq_left hfit]
    · unfold rxBufferMaxLen at hlen
      omega

theorem length_bytes_replicate (n : ℕ) (p : Pbuf) :
    (bytes (List.replicate n p)).length = n * p.payload.length := by
  induction n with
  | zero => rw [Nat.zero_mul]; rfl
  | succ n ih =>
    rw [List.replicate_succ, bytes_cons, List.length_append, ih, Nat.succ_mul, Nat.add_comm]

/-- Three segments of 536 bytes: the third is copied whole, and the NUL goes
behind the buffer. -/
theorem nul_past_buffer : ¬ ∀ (chain : List Pbuf) (server : HttpServer),
    ReceivesRight chain server := by
  intro hright
  have hsegment : (List.replicate 536 (0 : Byte)).length < 2 ^ 16 := by
    rw [List.length_replicate]
    omega
  have hbytes : ∀ n, (bytes (List.replicate n ⟨_, hsegment⟩)).length = n * 536 := fun n => by
    rw [length_bytes_replicate, List.length_replicate]
  have hcopies := (hright (List.replicate 3 ⟨_, hsegment⟩) ⟨0, 0, fun _ => 0⟩).toCopiesRight
  rcases (copies_right_iff _ _).1 hcopies with hle | ⟨pre, suf, hcut, hlen⟩
  · rw [hbytes] at hle
    unfold rxBufferMaxLen at hle
    omega
  · obtain ⟨-, hpre, -⟩ := List.replicate_eq_append_iff.1 hcut
    rw [hpre, hbytes] at hlen
    unfold rxBufferMaxLen at hlen
    omega

end Stm32Handler.Web
