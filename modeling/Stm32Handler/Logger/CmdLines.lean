import Stm32Handler.Logger.CmdProcess

/-!
# Lines as frames

What `cmd_process` makes of a stream of lines. A line is one frame, its bytes
without the carriage returns, as long as there are fewer than
`COMMAND_MAX_SIZE` of them. With exactly that many the frame is complete at its
last byte, and the line feed that is still to come completes an empty one
(`lineFrames`).
-/

namespace Stm32Handler.Logger

def stripCr (line : List UInt8) : List UInt8 := line.filter (· ≠ cr)

/-- The stream of LF-terminated lines. -/
def lineStream (lines : List (List UInt8)) : List UInt8 := lines.flatMap (· ++ [lf])

/-- Each line was dispatched once, in order, with its bytes as content and length. -/
def DispatchedOnce (lines : List (List UInt8)) (log : List Dispatch) : Prop :=
  (log.map fun d => (d.frame, d.len.toNat)) = lines.map fun line => (stripCr line, (stripCr line).length)

/-- The frames of one line and its line feed. -/
def lineFrames (line : List UInt8) : List (List UInt8) :=
  if (stripCr line).length < commandMaxSize then [stripCr line] else [stripCr line, []]

theorem stripCr_cr (line : List UInt8) : stripCr (cr :: line) = stripCr line := by
  simp [stripCr]

theorem stripCr_cons {c : UInt8} (hc : c ≠ cr) (line : List UInt8) :
    stripCr (c :: line) = c :: stripCr line := by
  simp [stripCr, hc]

/-! ## One byte -/

section Byte

variable {acc : List UInt8} {c : UInt8} (rest : List UInt8)

theorem frames_cr (hacc : acc.length < commandMaxSize) : frames acc (cr :: rest) = frames acc rest := by
  have hkeep : keep acc cr = acc := if_neg fun h => h.1 rfl
  have hgather : gather acc cr = (acc, none) := by
    unfold gather
    rw [hkeep, if_neg (not_or.2 ⟨by decide, by omega⟩)]
  rw [frames, hgather]
  rfl

/-- A line feed completes what is gathered. -/
theorem frames_lf : frames acc (lf :: rest) = acc :: frames [] rest := by
  have hkeep : keep acc lf = acc := if_neg fun h => h.2 rfl
  have hgather : gather acc lf = ([], some acc) := by
    unfold gather
    rw [hkeep, if_pos (.inl rfl)]
  rw [frames, hgather]
  rfl

/-- A byte for which there is room after it. -/
theorem frames_push (hcr : c ≠ cr) (hlf : c ≠ lf) (hacc : acc.length + 1 < commandMaxSize) :
    frames acc (c :: rest) = frames (acc ++ [c]) rest := by
  have hkeep : keep acc c = acc ++ [c] := if_pos ⟨hcr, hlf⟩
  have hsnoc : (acc ++ [c]).length = acc.length + 1 := List.length_append
  have hgather : gather acc c = (acc ++ [c], none) := by
    unfold gather
    rw [hkeep, if_neg (not_or.2 ⟨hlf, by omega⟩)]
  rw [frames, hgather]
  rfl

/-- The byte that fills the buffer completes the frame. -/
theorem frames_fill (hcr : c ≠ cr) (hlf : c ≠ lf) (hacc : acc.length + 1 = commandMaxSize) :
    frames acc (c :: rest) = (acc ++ [c]) :: frames [] rest := by
  have hkeep : keep acc c = acc ++ [c] := if_pos ⟨hcr, hlf⟩
  have hsnoc : (acc ++ [c]).length = acc.length + 1 := List.length_append
  have hgather : gather acc c = ([], some (acc ++ [c])) := by
    unfold gather
    rw [hkeep, if_pos (.inr (by omega))]
  rw [frames, hgather]
  rfl

end Byte

/-! ## Lines -/

/-- Bytes that do not fill the buffer are gathered. -/
theorem frames_open {line acc : List UInt8} (hlf : lf ∉ line)
    (hlen : acc.length + (stripCr line).length < commandMaxSize) (rest : List UInt8) :
    frames acc (line ++ rest) = frames (acc ++ stripCr line) rest := by
  induction line generalizing acc with
  | nil => simp [stripCr]
  | cons c line ih =>
    simp only [List.mem_cons, not_or] at hlf
    rw [List.cons_append]
    by_cases hcr : c = cr
    · subst hcr
      rw [stripCr_cr] at hlen ⊢
      rw [frames_cr _ (by omega), ih hlf.2 hlen]
    · rw [stripCr_cons hcr, List.length_cons] at hlen
      have hsnoc : (acc ++ [c]).length = acc.length + 1 := List.length_append
      rw [frames_push _ hcr (Ne.symm hlf.1) (by omega), ih hlf.2 (by omega), stripCr_cons hcr,
        List.append_assoc]
      rfl

/-- Bytes that fill the buffer complete the frame, whatever carriage returns
follow. -/
theorem frames_full {line acc : List UInt8} (hlf : lf ∉ line) (hacc : acc.length < commandMaxSize)
    (hlen : acc.length + (stripCr line).length = commandMaxSize) (rest : List UInt8) :
    frames acc (line ++ rest) = (acc ++ stripCr line) :: frames [] rest := by
  induction line generalizing acc with
  | nil =>
    rw [stripCr, List.filter_nil, List.length_nil] at hlen
    omega
  | cons c line ih =>
    simp only [List.mem_cons, not_or] at hlf
    rw [List.cons_append]
    by_cases hcr : c = cr
    · subst hcr
      rw [stripCr_cr] at hlen ⊢
      rw [frames_cr _ hacc, ih hlf.2 hacc hlen]
    · rw [stripCr_cons hcr, List.length_cons] at hlen
      have hsnoc : (acc ++ [c]).length = acc.length + 1 := List.length_append
      rw [stripCr_cons hcr]
      by_cases hfull : acc.length + 1 = commandMaxSize
      · -- only carriage returns are left of the line
        have hempty : stripCr line = [] := List.eq_nil_of_length_eq_zero (by omega)
        have hopen : frames [] (line ++ rest) = frames ([] ++ stripCr line) rest :=
          frames_open hlf.2 (by rw [hempty]; decide) rest
        rw [hempty, List.append_nil] at hopen
        rw [frames_fill _ hcr (Ne.symm hlf.1) hfull, hopen, hempty]
      · rw [frames_push _ hcr (Ne.symm hlf.1) (by omega), ih hlf.2 (by omega) (by omega),
          List.append_assoc]
        rfl

/-- **One line.** -/
theorem frames_line {line : List UInt8} (hlf : lf ∉ line)
    (hlen : (stripCr line).length ≤ commandMaxSize) (rest : List UInt8) :
    frames [] (line ++ lf :: rest) = lineFrames line ++ frames [] rest := by
  unfold lineFrames
  by_cases hlt : (stripCr line).length < commandMaxSize
  · rw [if_pos hlt, frames_open hlf (by rwa [List.length_nil, Nat.zero_add]), frames_lf]
    rfl
  · rw [if_neg hlt, frames_full hlf (by decide) (by rw [List.length_nil]; omega), frames_lf]
    rfl

/-- **All lines.** -/
theorem frames_lineStream {lines : List (List UInt8)} (hlf : ∀ line ∈ lines, lf ∉ line)
    (hlen : ∀ line ∈ lines, (stripCr line).length ≤ commandMaxSize) :
    frames [] (lineStream lines) = lines.flatMap lineFrames := by
  induction lines with
  | nil => rfl
  | cons line lines ih =>
    have hrest := ih (fun l hl => hlf l (List.mem_cons_of_mem _ hl)) fun l hl =>
      hlen l (List.mem_cons_of_mem _ hl)
    have hline := frames_line (hlf line List.mem_cons_self) (hlen line List.mem_cons_self)
      (lineStream lines)
    rw [List.flatMap_cons, ← hrest, ← hline, lineStream, List.flatMap_cons, List.append_assoc]
    rfl

theorem length_le_flatMap_lineFrames (lines : List (List UInt8)) :
    lines.length ≤ (lines.flatMap lineFrames).length := by
  induction lines with
  | nil => exact Nat.le_refl 0
  | cons line lines ih =>
    have hone : 1 ≤ (lineFrames line).length := by
      unfold lineFrames
      split <;> simp
    rw [List.flatMap_cons, List.length_append, List.length_cons]
    omega

/-- The frames are the lines iff no line fills the buffer: one that does leaves
a frame too many. -/
theorem flatMap_lineFrames_iff (lines : List (List UInt8)) :
    lines.flatMap lineFrames = lines.map stripCr ↔
      ∀ line ∈ lines, (stripCr line).length < commandMaxSize := by
  induction lines with
  | nil => simp
  | cons line lines ih =>
    rw [List.flatMap_cons, List.map_cons, List.forall_mem_cons, ← ih, lineFrames]
    by_cases hlt : (stripCr line).length < commandMaxSize
    · rw [if_pos hlt, List.singleton_append, List.cons.injEq]
      simp only [hlt, true_and]
    · rw [if_neg hlt]
      refine iff_of_false (fun heq => ?_) fun h => hlt h.1
      have hcount := congrArg List.length heq
      have hle := length_le_flatMap_lineFrames lines
      simp only [List.length_append, List.length_cons, List.length_nil, List.length_map] at hcount
      omega

/-- What was dispatched after all lines; the lengths follow the contents. -/
theorem exec_lineStream {lines : List (List UInt8)} (hlf : ∀ line ∈ lines, lf ∉ line)
    (hlen : ∀ line ∈ lines, (stripCr line).length ≤ commandMaxSize) :
    ∃ s, exec cmdProcess cmdProtocolInit (lineStream lines) = some s ∧
      (s.log.map fun d => (d.frame, d.len.toNat)) = (lines.flatMap lineFrames).map fun f => (f, f.length) := by
  obtain ⟨s, acc, ds, hrun, -, -, hlog, hframes, hall⟩ :=
    exec_cmdProcess (lineStream lines) cmdProtocolInit_gathers (by decide)
  have hlog : s.log = ds := hlog
  refine ⟨s, hrun, ?_⟩
  rw [hlog, ← frames_lineStream hlf hlen, ← hframes, List.map_map]
  exact List.map_congr_left fun d hd => Prod.ext rfl (hall d hd).1

/-- **When every line is dispatched exactly once**: when none has as many bytes
as the buffer takes. -/
theorem cmd_lines_once_iff (lines : List (List UInt8)) (hlf : ∀ line ∈ lines, lf ∉ line)
    (hlen : ∀ line ∈ lines, (stripCr line).length ≤ commandMaxSize) :
    (∃ s, exec cmdProcess cmdProtocolInit (lineStream lines) = some s ∧ DispatchedOnce lines s.log) ↔
      ∀ line ∈ lines, (stripCr line).length < commandMaxSize := by
  obtain ⟨s, hrun, hlog⟩ := exec_lineStream hlf hlen
  have honce : DispatchedOnce lines s.log ↔ lines.flatMap lineFrames = lines.map stripCr := by
    unfold DispatchedOnce
    rw [hlog]
    constructor
    · intro h
      have := congrArg (List.map Prod.fst) h
      simpa [List.map_map, Function.comp_def] using this
    · intro h
      rw [h, List.map_map]
      rfl
  rw [← flatMap_lineFrames_iff, ← honce]
  constructor
  · rintro ⟨s', hrun', h⟩
    rw [hrun] at hrun'
    cases hrun'
    exact h
  · exact fun h => ⟨s, hrun, h⟩

/-- A command behind a carriage return, and an empty line. -/
theorem cmd_lines_once_iff_short :
    ∃ s, exec cmdProcess cmdProtocolInit (lineStream [cr :: ascii "!save", []]) = some s ∧
      DispatchedOnce [cr :: ascii "!save", []] s.log :=
  (cmd_lines_once_iff [cr :: ascii "!save", []] (by decide) (by decide)).2 (by decide)

/-- A line of 32 bytes leaves an empty frame behind it. -/
theorem cmd_line_full_twice :
    ¬ ∀ lines : List (List UInt8), (∀ line ∈ lines, lf ∉ line) →
      (∀ line ∈ lines, (stripCr line).length ≤ commandMaxSize) →
      ∃ s, exec cmdProcess cmdProtocolInit (lineStream lines) = some s ∧ DispatchedOnce lines s.log := by
  intro hall
  have hlf : ∀ line ∈ [List.replicate 32 (97 : UInt8)], lf ∉ line := by decide
  have hlen : ∀ line ∈ [List.replicate 32 (97 : UInt8)], (stripCr line).length ≤ commandMaxSize := by decide
  obtain ⟨s, hrun, honce⟩ := hall _ hlf hlen
  obtain ⟨s', hrun', hlog⟩ := exec_lineStream hlf hlen
  rw [hrun] at hrun'
  cases hrun'
  unfold DispatchedOnce at honce
  rw [hlog] at honce
  exact absurd honce (by decide)

end Stm32Handler.Logger
