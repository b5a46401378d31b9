import Stm32Handler.Lib.SelectLine
import Stm32Handler.Spi.W25qBus

/-!
# The W25Q driver and its select line

A bus that answers anything: `Answers` gives the byte and the status of every
exchange and the result of every look at the DMA flag, in order, and `Line`
keeps the log of what the driver does with the chip select and the bytes.

Every function is followed through to the frames it sends (`Line.framed`). Where
a function goes on depends on the answers only: which status byte is the first
without the busy bit (`ClearAfter`), and what the command byte is answered with.
-/

namespace Stm32Handler.Spi

/-- An exchange: the byte sent, the byte received, and whether its status is
`HAL_OK`. -/
structure Exchange where
  tx : Byte
  rx : Byte
  ok : Bool
  deriving DecidableEq

/-- What the bus answers, by the number of the exchange or the check. -/
structure Answers where
  exchange : ℕ → Byte × Bool
  check : ℕ → Bool

structure Line where
  log : List (LineEvent Exchange)
  /-- the exchanges so far -/
  sent : ℕ
  /-- the checks of the DMA flag so far -/
  checks : ℕ

abbrev LineM := StateM Line

/-- A look at the DMA flag. -/
def lineCheck (ans : Answers) : LineM Bool :=
  modifyGet fun s => (ans.check s.checks, { s with checks := s.checks + 1 })

def lineBus (ans : Answers) : WqDmaBus LineM where
  csOn := modify fun s => { s with log := s.log ++ [.select] }
  csOff := modify fun s => { s with log := s.log ++ [.release] }
  spiRwByte b := modifyGet fun s =>
    let (rx, ok) := ans.exchange s.sent
    ((rx, ok), { s with log := s.log ++ [.byte ⟨b, rx, ok⟩], sent := s.sent + 1 })
  spiReadDma _ := pure ()
  spiWriteDma _ := pure ()
  spiReadCheckOk := lineCheck ans
  spiWriteCheckOk := lineCheck ans

/-- High, and nothing sent yet. -/
def idleLine : Line := ⟨[], 0, 0⟩

variable {ans : Answers} {α β : Type}

/-- The bytes `bs` as the exchanges from number `p` on. -/
def exchanges (ans : Answers) : ℕ → List Byte → List Exchange
  | _, [] => []
  | p, b :: bs => ⟨b, (ans.exchange p).1, (ans.exchange p).2⟩ :: exchanges ans (p + 1) bs

@[simp] theorem exchanges_length (p : ℕ) (bs : List Byte) : (exchanges ans p bs).length = bs.length := by
  induction bs generalizing p with
  | nil => rfl
  | cons b bs ih => rw [exchanges, List.length_cons, ih, List.length_cons]

theorem exchanges_append (p : ℕ) (bs bs' : List Byte) :
    exchanges ans p (bs ++ bs') = exchanges ans p bs ++ exchanges ans (p + bs.length) bs' := by
  induction bs generalizing p with
  | nil => rfl
  | cons b bs ih =>
    rw [List.cons_append, exchanges, ih, exchanges, List.cons_append, List.length_cons,
      Nat.add_assoc, Nat.add_comm 1]

namespace Line

/-- With whole frames sent. -/
def framed (s : Line) (fs : List (List Exchange)) : Line :=
  { s with log := s.log ++ frameLog fs, sent := s.sent + fs.flatten.length }

/-- With a frame that is still open. -/
def opened (s : Line) (es : List Exchange) : Line :=
  { s with log := s.log ++ .select :: es.map .byte, sent := s.sent + es.length }

@[simp] theorem framed_sent (s : Line) (fs : List (List Exchange)) :
    (s.framed fs).sent = s.sent + fs.flatten.length := rfl

@[simp] theorem framed_checks (s : Line) (fs : List (List Exchange)) :
    (s.framed fs).checks = s.checks := rfl

@[simp] theorem framed_nil (s : Line) : s.framed [] = s := by
  unfold framed
  rw [frameLog, List.flatMap_nil, List.append_nil]
  rfl

@[simp] theorem framed_framed (s : Line) (fs gs : List (List Exchange)) :
    (s.framed fs).framed gs = s.framed (fs ++ gs) := by
  unfold framed
  rw [frameLog_append, List.append_assoc, List.flatten_append, List.length_append, Nat.add_assoc]

end Line

/-! ## The calls -/

theorem line_bind (x : LineM α) (f : α → LineM β) (s : Line) :
    (x >>= f).run s = (f (x.run s).1).run (x.run s).2 := rfl

theorem line_pure (a : α) (s : Line) : (pure a : LineM α).run s = (a, s) := rfl

theorem line_ite (p : Prop) [Decidable p] (x y : LineM α) (s : Line) :
    (if p then x else y).run s = if p then x.run s else y.run s := by
  split <;> rfl

theorem csOn_line (s : Line) : (lineBus ans).csOn.run s = ((), s.opened []) := rfl

theorem spiRwByte_line (s : Line) (es : List Exchange) (b : Byte) :
    ((lineBus ans).spiRwByte b).run (s.opened es) =
      (ans.exchange (s.sent + es.length), s.opened (es ++ exchanges ans (s.sent + es.length) [b])) := by
  have hlog : s.log ++ LineEvent.select :: List.map LineEvent.byte es ++
      [.byte ⟨b, (ans.exchange (s.sent + es.length)).1, (ans.exchange (s.sent + es.length)).2⟩] =
      s.log ++ LineEvent.select ::
        (es ++ exchanges ans (s.sent + es.length) [b]).map LineEvent.byte := by
    rw [List.append_assoc, List.map_append]
    rfl
  show ((_, _), Line.mk _ _ _) = (_, Line.mk _ _ _)
  rw [← hlog, List.length_append, ← Nat.add_assoc]
  rfl

theorem csOff_line (ans : Answers) (s : Line) (es : List Exchange) :
    (lineBus ans).csOff.run (s.opened es) = ((), s.framed [es]) := by
  have hlog : s.log ++ LineEvent.select :: es.map LineEvent.byte ++ [.release] =
      s.log ++ frameLog [es] := by
    rw [frameLog, List.flatMap_singleton, List.append_assoc]
    rfl
  show ((), Line.mk _ _ _) = ((), Line.mk _ _ _)
  rw [← hlog, List.flatten_singleton]
  rfl

theorem spiSend_line (s : Line) (es : List Exchange) (bs : List Byte) :
    ((lineBus ans).spiSend bs).run (s.opened es) =
      ((), s.opened (es ++ exchanges ans (s.sent + es.length) bs)) := by
  induction bs generalizing es with
  | nil =>
    rw [exchanges, List.append_nil]
    rfl
  | cons b bs ih =>
    have hlast : exchanges ans (s.sent + es.length) (b :: bs) =
        exchanges ans (s.sent + es.length) [b] ++ exchanges ans (s.sent + es.length + 1) bs := rfl
    rw [WqBus.spiSend, line_bind, spiRwByte_line, hlast, ← List.append_assoc, Nat.add_assoc]
    have hsend := ih (es ++ exchanges ans (s.sent + es.length) [b])
    rw [List.length_append, exchanges_length, List.length_singleton] at hsend
    exact hsend

/-- The loop that fills a buffer sends dummies. -/
theorem spiReceive_line (s : Line) (es : List Exchange) (n : ℕ) :
    (((lineBus ans).spiReceive n).run (s.opened es)).2 =
      s.opened (es ++ exchanges ans (s.sent + es.length) (List.replicate n 0xFF)) := by
  induction n generalizing es with
  | zero =>
    rw [List.replicate_zero, exchanges, List.append_nil]
    rfl
  | succ n ih =>
    have hlast : exchanges ans (s.sent + es.length) (List.replicate (n + 1) 0xFF) =
        exchanges ans (s.sent + es.length) [0xFF] ++
          exchanges ans (s.sent + es.length + 1) (List.replicate n 0xFF) := rfl
    have hreceive := ih (es ++ exchanges ans (s.sent + es.length) [0xFF])
    rw [List.length_append, exchanges_length, List.length_singleton] at hreceive
    rw [WqBus.spiReceive, line_bind, spiRwByte_line, hlast, ← List.append_assoc, Nat.add_assoc]
    exact hreceive

theorem wqWriteEnable_line (s : Line) :
    ((lineBus ans).wqWriteEnable).run s = ((), s.framed [exchanges ans s.sent [w25xInstruWren]]) := by
  rw [WqBus.wqWriteEnable, line_bind, csOn_line, line_bind, spiRwByte_line, csOff_line]
  rfl

/-- The two bytes of a status read. -/
def statusBytes : List Byte := [w25xInstruRdsr1, 0xFF]

theorem wqReadStatus_line (s : Line) :
    ((lineBus ans).wqReadStatus).run s =
      ((ans.exchange (s.sent + 1)).1, s.framed [exchanges ans s.sent statusBytes]) := by
  rw [WqBus.wqReadStatus, line_bind, csOn_line, line_bind, spiRwByte_line, line_bind, spiRwByte_line,
    line_bind, csOff_line]
  rfl

/-! ## Waiting -/

/-- Status read `j` after exchange `p` answers without the busy bit. -/
def ClearAt (ans : Answers) (p j : ℕ) : Prop := (ans.exchange (p + 2 * j + 1)).1 &&& 0x1 = 0

instance (p j : ℕ) : Decidable (ClearAt ans p j) := inferInstanceAs (Decidable (_ = _))

/-- Status read `k` is the first one without the busy bit. -/
structure ClearAfter (ans : Answers) (p k : ℕ) : Prop where
  busy : ∀ j < k, ¬ ClearAt ans p j
  clear : ClearAt ans p k

/-- The frames of `k` status reads. -/
def statusFrames (ans : Answers) : ℕ → ℕ → List (List Exchange)
  | _, 0 => []
  | p, k + 1 => exchanges ans p statusBytes :: statusFrames ans (p + 2) k

@[simp] theorem statusFrames_flatten_length (p k : ℕ) : (statusFrames ans p k).flatten.length = 2 * k := by
  induction k generalizing p with
  | zero => rfl
  | succ k ih =>
    rw [statusFrames, List.flatten_cons, List.length_append, exchanges_length, ih]
    show 2 + 2 * k = _
    omega

theorem clearAt_succ (p j : ℕ) : ClearAt ans (p + 2) j ↔ ClearAt ans p (j + 1) := by
  unfold ClearAt
  rw [show p + 2 + 2 * j + 1 = p + 2 * (j + 1) + 1 by omega]

/-- A wait of `n` rounds ends well at the first clear status byte, and in a
timeout if there is none. -/
theorem wqWaitLoop_line (ans : Answers) (s : Line) (n : ℕ) :
    (∃ k < n, ClearAfter ans s.sent k ∧
        ((lineBus ans).wqWaitLoop n).run s = (.ok, s.framed (statusFrames ans s.sent (k + 1)))) ∨
      (∀ j < n, ¬ ClearAt ans s.sent j) ∧
        ((lineBus ans).wqWaitLoop n).run s = (.timeoutErr, s.framed (statusFrames ans s.sent n)) := by
  induction n generalizing s with
  | zero =>
    refine .inr ⟨fun _ hj => absurd hj (Nat.not_lt_zero _), ?_⟩
    rw [statusFrames, Line.framed_nil]
    rfl
  | succ n ih =>
    have hread : ((lineBus ans).wqWaitLoop (n + 1)).run s =
        if ClearAt ans s.sent 0 then (.ok, s.framed [exchanges ans s.sent statusBytes])
        else ((lineBus ans).wqWaitLoop n).run (s.framed [exchanges ans s.sent statusBytes]) := by
      rw [WqBus.wqWaitLoop, line_bind, wqReadStatus_line, line_ite]
      rfl
    rw [hread]
    by_cases hclear : ClearAt ans s.sent 0
    · refine .inl ⟨0, Nat.zero_lt_succ n, ⟨fun _ hj => absurd hj (Nat.not_lt_zero _), hclear⟩, ?_⟩
      rw [if_pos hclear]
      rfl
    · rw [if_neg hclear]
      have hrounds := ih (s.framed [exchanges ans s.sent statusBytes])
      simp only [Line.framed_framed, Line.framed_sent, List.flatten_singleton, exchanges_length,
        show statusBytes.length = 2 from rfl, clearAt_succ] at hrounds
      rcases hrounds with ⟨k, hk, hafter, hrun⟩ | ⟨hbusy, hrun⟩
      · refine .inl ⟨k + 1, Nat.succ_lt_succ hk, ⟨fun j hj => ?_, (clearAt_succ _ _).1 hafter.clear⟩, hrun⟩
        cases j with
        | zero => exact hclear
        | succ j => exact fun hj' => hafter.busy j (by omega) ((clearAt_succ _ _).2 hj')
      · refine .inr ⟨fun j hj => ?_, hrun⟩
        cases j with
        | zero => exact hclear
        | succ j => exact hbusy j (by omega)

/-! ## Commands -/

/-- Inside a frame, `x` sends the bytes `bs`. -/
def Sends (ans : Answers) (x : LineM α) (bs : List Byte) : Prop :=
  ∀ (s : Line) (es : List Exchange), (x.run (s.opened es)).2 = s.opened (es ++ exchanges ans (s.sent + es.length) bs)

theorem sends_spiSend (bs : List Byte) : Sends ans ((lineBus ans).spiSend bs) bs := fun s es => by
  rw [spiSend_line]

theorem sends_spiReceive (n : ℕ) :
    Sends ans ((lineBus ans).spiReceive n) (List.replicate n 0xFF) :=
  fun s es => spiReceive_line s es n

theorem sends_pure (ans : Answers) (a : α) : Sends ans (pure a) [] := fun s es => by
  rw [line_pure, exchanges, List.append_nil]

theorem Sends.bind {x : LineM α} {f : α → LineM β} {bs bs' : List Byte} (hx : Sends ans x bs)
    (hf : ∀ a, Sends ans (f a) bs') : Sends ans (x >>= f) (bs ++ bs') := by
  intro s es
  rw [line_bind, hx, hf, exchanges_append, List.append_assoc, List.length_append, exchanges_length,
    Nat.add_assoc]

/-- The bytes of a command: the rest is only sent if the first one is. -/
def commandFrame (ans : Answers) (c : ℕ) (instruct : Byte) (rest : List Byte) : List Exchange :=
  exchanges ans c (instruct :: if (ans.exchange c).2 then rest else [])

theorem firstByte_line (s : Line) (b : Byte) :
    ((lineBus ans).spiRwByte b).run (s.opened []) =
      (ans.exchange s.sent, s.opened (exchanges ans s.sent [b])) :=
  spiRwByte_line s [] b

theorem command_line (s : Line) (instruct : Byte) {body : LineM Unit} {rest : List Byte}
    (hbody : Sends ans body rest) (k : Bool → LineM α) :
    (do
      (lineBus ans).csOn
      let (_, status) ← (lineBus ans).spiRwByte instruct
      if status then
        body
      (lineBus ans).csOff
      k status).run s =
      (k (ans.exchange s.sent).2).run (s.framed [commandFrame ans s.sent instruct rest]) := by
  rw [line_bind, csOn_line, line_bind, firstByte_line]
  unfold commandFrame
  cases hstatus : (ans.exchange s.sent).2 with
  | false =>
    simp only [hstatus, Bool.false_eq_true, ↓reduceIte, line_bind, csOff_line]
  | true =>
    simp only [hstatus, ↓reduceIte, line_bind, hbody s, csOff_line]
    rfl

/-! ## DMA -/

/-- The wait for a transfer ends at the first check that finds it complete. -/
theorem wqDmaLoop_line (ans : Answers) (s : Line) (n : ℕ) :
    (∃ k < n, ans.check (s.checks + k) = true ∧
        ∃ c, (WqDmaBus.wqDmaLoop (lineCheck ans) n).run s = (true, { s with checks := c })) ∨
      (∀ k < n, ans.check (s.checks + k) = false) ∧
        ∃ c, (WqDmaBus.wqDmaLoop (lineCheck ans) n).run s = (false, { s with checks := c }) := by
  induction n generalizing s with
  | zero => exact .inr ⟨fun _ hk => absurd hk (Nat.not_lt_zero _), s.checks, rfl⟩
  | succ n ih =>
    have hcheck : (WqDmaBus.wqDmaLoop (lineCheck ans) (n + 1)).run s =
        if ans.check s.checks then (true, { s with checks := s.checks + 1 })
        else (WqDmaBus.wqDmaLoop (lineCheck ans) n).run { s with checks := s.checks + 1 } := by
      rw [WqDmaBus.wqDmaLoop, line_bind, line_ite]
      rfl
    rw [hcheck]
    cases hfirst : ans.check s.checks with
    | true => exact .inl ⟨0, Nat.zero_lt_succ n, hfirst, s.checks + 1, rfl⟩
    | false =>
      rcases ih { s with checks := s.checks + 1 } with ⟨k, hk, hdone, c, hrun⟩ | ⟨hnever, c, hrun⟩
      · refine .inl ⟨k + 1, Nat.succ_lt_succ hk, ?_, c, hrun⟩
        rw [← hdone, Nat.add_assoc, Nat.add_comm k]
      · refine .inr ⟨fun k hk => ?_, c, hrun⟩
        cases k with
        | zero => exact hfirst
        | succ k =>
          rw [← hnever k (by omega), Nat.add_assoc, Nat.add_comm k]

/-- A command with a transfer in it, and what follows once the chip is
deselected. -/
def dmaCommand (ans : Answers) (instruct : Byte) (rest : List Byte) (k : Bool → LineM WqOpStatus) :
    LineM WqOpStatus := do
  (lineBus ans).csOn
  let (_, status) ← (lineBus ans).spiRwByte instruct
  if status then
    (lineBus ans).spiSend rest
    if !(← WqDmaBus.wqDmaLoop (lineCheck ans) (w25xWaitTimeout + 1)) then return .timeoutErr
  (lineBus ans).csOff
  k status

/-- A transfer that times out leaves the frame open. -/
theorem dmaCommand_line (ans : Answers) (s : Line) (instruct : Byte) (rest : List Byte)
    (k : Bool → LineM WqOpStatus) :
    (((ans.exchange s.sent).2 = true → ∃ i < w25xWaitTimeout + 1, ans.check (s.checks + i) = true) ∧
        ∃ c, (dmaCommand ans instruct rest k).run s = (k (ans.exchange s.sent).2).run
          ({ s with checks := c }.framed [commandFrame ans s.sent instruct rest])) ∨
      ((ans.exchange s.sent).2 = true ∧
          (∀ i < w25xWaitTimeout + 1, ans.check (s.checks + i) = false) ∧
        ∃ c, (dmaCommand ans instruct rest k).run s = (.timeoutErr,
          { s with checks := c }.opened (commandFrame ans s.sent instruct rest))) := by
  rw [dmaCommand, line_bind, csOn_line, line_bind, firstByte_line]
  unfold commandFrame
  cases hstatus : (ans.exchange s.sent).2 with
  | false =>
    refine .inl ⟨nofun, s.checks, ?_⟩
    simp only [hstatus, Bool.false_eq_true, ↓reduceIte, line_bind, csOff_line]
  | true =>
    have hbody : (((lineBus ans).spiSend rest).run (s.opened (exchanges ans s.sent [instruct]))).2 =
        s.opened (exchanges ans s.sent (instruct :: rest)) := sends_spiSend rest s _
    simp only [hstatus, ↓reduceIte, line_bind, hbody]
    have hloop := wqDmaLoop_line ans (s.opened (exchanges ans s.sent (instruct :: rest)))
      (w25xWaitTimeout + 1)
    rcases hloop with ⟨i, hi, hdone, c, hrun⟩ | ⟨hnever, c, hrun⟩
    · refine .inl ⟨fun _ => ⟨i, hi, hdone⟩, c, ?_⟩
      have hoff := csOff_line ans { s with checks := c } (exchanges ans s.sent (instruct :: rest))
      rw [hrun]
      exact congrArg (fun x => (k true).run x.2) hoff
    · refine .inr ⟨trivial, hnever, c, ?_⟩
      rw [hrun]
      rfl

end Stm32Handler.Spi
