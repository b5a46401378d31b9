import Mathlib.Data.List.Nodup
import Mathlib.Data.List.TakeDrop
import Stm32Handler.Lib.CString
import Stm32Handler.Lib.Run

/-!
# The logger's commands

`cmd_process.c`: bytes are gathered in `rx_buffer` up to a line feed or until
`COMMAND_MAX_SIZE` of them are there, and what was gathered is looked up in
`cmd_struct_list`. Stores and reads are checked: `none` is an access outside
`rx_buffer`.

`Gathers` ties the buffer to the abstract accumulator `gather`, which says
what a byte does to the bytes gathered so far and when a frame is complete.
-/

namespace Stm32Handler.Logger

def commandMaxSize : ℕ := 32

/-- `CMD_SEARCH_NULL`. -/
def cmdSearchNull : UInt8 := 0xFF

/-- The functions of the commands. -/
inductive ComFunc where
  | showAll
  | save
  | help
  deriving DecidableEq

/-- `CMD_COMMAND_STRUCT`; `command` without its closing zero. -/
structure CmdCommandStruct where
  command : List UInt8
  comsize : UInt8
  comfunc : ComFunc

/-- `cmd_struct_list` after `cmd_protocol_init` has set every `comsize` to the
`strlen` of its command. -/
def cmdStructList : List CmdCommandStruct :=
  [("!showall", ComFunc.showAll), ("!save", .save), ("!help", .help), ("!?", .help)].map fun (s, f) =>
    { command := ascii s, comsize := UInt8.ofNat (ascii s).length, comfunc := f }

/-- `LOGGER_COMMAND_BUFFER`. -/
structure LoggerCommandBuffer where
  index : UInt8
  rxBuffer : Vector UInt8 (commandMaxSize + 1)

/-- A call `cmd_struct_list[entry].comfunc(pdata, datasize)`; `pdata` is a
distance from `pbuffer`, none is `NULL`. -/
structure ComCall where
  entry : UInt8
  pdata : Option ℕ
  datasize : UInt8

/-- A call of `cmd_protocol_process`, with the calls it made. -/
structure Dispatch where
  pbuffer : List UInt8
  len : UInt8
  calls : List ComCall

/-- The static `LoggerBuffer` and, as a history, the frames dispatched. -/
structure CmdState where
  loggerBuffer : LoggerCommandBuffer
  log : List Dispatch

/-! ## `cmd_process.c` -/

/-- The loop of `search_cmd_list`, `index` entries in. -/
def searchFrom (pbuffer : List UInt8) (cmdSize : UInt8) : List CmdCommandStruct → UInt8 → Option UInt8
  | [], _ => some cmdSearchNull
  | e :: es, index =>
    if cmdSize = e.comsize then do
      if ← strncmpEq pbuffer (e.command ++ [0]) cmdSize.toNat then return index
      searchFrom pbuffer cmdSize es (index + 1)
    else searchFrom pbuffer cmdSize es (index + 1)

/-- `search_cmd_list`. -/
def searchCmdList (pbuffer : List UInt8) (cmdSize : UInt8) : Option UInt8 :=
  searchFrom pbuffer cmdSize cmdStructList 0

/-- `cmd_protocol_process`: the calls it makes. -/
def cmdProtocolProcess (pbuffer : List UInt8) (len : UInt8) : Option (List ComCall) := do
  let ptr ← strchr pbuffer space
  let (headsize, pdata, datasize) :=
    match ptr with
    | none => (len, none, 0)
    | some ptr => (UInt8.ofNat ptr, some (ptr + 1), len - UInt8.ofNat ptr - 1)
  let index ← searchCmdList pbuffer headsize
  if index.toNat < cmdStructList.length then return [⟨index, pdata, datasize⟩]
  return []

/-- `rx_buffer[index] = c`. -/
def LoggerCommandBuffer.store (b : LoggerCommandBuffer) (c : UInt8) : Option LoggerCommandBuffer :=
  (storeBytes b.rxBuffer b.index.toNat [c]).map fun v => { b with rxBuffer := v }

/-- The first half of `cmd_process`: `rx_buffer[index++] = c`, but for CR and LF. -/
def LoggerCommandBuffer.push (b : LoggerCommandBuffer) (c : UInt8) : Option LoggerCommandBuffer :=
  if c ≠ cr ∧ c ≠ lf then (b.store c).map fun b => { b with index := b.index + 1 } else some b

/-- `cmd_process`. -/
def cmdProcess (s : CmdState) (c : UInt8) : Option CmdState := do
  let b ← s.loggerBuffer.push c
  if c = lf ∨ b.index.toNat ≥ commandMaxSize then
    let b ← b.store 0
    let calls ← cmdProtocolProcess b.rxBuffer.toList b.index
    return { loggerBuffer := { b with index := 0 }, log := s.log ++ [⟨b.rxBuffer.toList, b.index, calls⟩] }
  else return { s with loggerBuffer := b }

/-- `cmd_protocol_init`. -/
def cmdProtocolInit : CmdState :=
  { loggerBuffer := { index := 0, rxBuffer := Vector.replicate _ 0 }, log := [] }

/-! ## One frame -/

/-- The bytes a call of `cmd_protocol_process` is about. -/
def Dispatch.frame (d : Dispatch) : List UInt8 := d.pbuffer.take d.len.toNat

/-- The command of a frame and its data: the frame is cut at the first space
that precedes any NUL, and whole without one. -/
def tokenise (frame : List UInt8) : List UInt8 × Option (List UInt8) :=
  if space ∈ cstr frame then
    (frame.take ((cstr frame).idxOf space), some (frame.drop ((cstr frame).idxOf space + 1)))
  else (frame, none)

/-- `pdata` and `datasize` denote the data of the frame at `pbuffer`. -/
def ComCall.Denotes (c : ComCall) (pbuffer frame : List UInt8) : Prop :=
  match tokenise frame with
  | (_, none) => c.pdata = none ∧ c.datasize = 0
  | (head, some data) => c.pdata = some (head.length + 1) ∧ c.datasize.toNat = data.length ∧
      (pbuffer.drop (head.length + 1)).take c.datasize.toNat = data

/-- The frame went to the entry its command names, if there is one. -/
structure Dispatch.Exact (d : Dispatch) : Prop where
  invoked_iff : ∀ (i : ℕ) (hi : i < cmdStructList.length),
    (∃ c ∈ d.calls, c.entry.toNat = i) ↔ (tokenise d.frame).1 = cmdStructList[i].command
  args : ∀ c ∈ d.calls, c.Denotes d.pbuffer d.frame
  once : d.calls.length ≤ 1

/-- The search is the first entry whose command is `head`, for any `head` whose
comparison with a command is the comparison `strncmp` makes. -/
theorem searchFrom_eq {pbuffer head : List UInt8} {cmdSize : UInt8} (hz : 0 ∈ pbuffer)
    (es : List CmdCommandStruct) (hes : ∀ e ∈ es, 0 ∉ e.command ∧ e.comsize.toNat = e.command.length)
    (hhead : ∀ e ∈ es, (cmdSize = e.comsize ∧ (cstr pbuffer).take cmdSize.toNat = e.command) ↔
      head = e.command) (index : UInt8) :
    searchFrom pbuffer cmdSize es index =
      some (match es.findIdx? fun e => head == e.command with
        | some i => index + UInt8.ofNat i
        | none => cmdSearchNull) := by
  induction es generalizing index with
  | nil => rfl
  | cons e es ih =>
    obtain ⟨hnul, hsize⟩ := hes e List.mem_cons_self
    have hcmp : strncmpEq pbuffer (e.command ++ [0]) e.comsize.toNat =
        some (decide ((cstr pbuffer).take e.comsize.toNat = e.command)) := by
      rw [strncmpEq_eq hz (by simp), cstr_append_zero, cstr_eq_self hnul, hsize, List.take_length]
    have hnext := ih (fun e he => hes e (List.mem_cons_of_mem _ he))
      (fun e he => hhead e (List.mem_cons_of_mem _ he)) (index + 1)
    -- an entry that is passed over moves the index on
    have hskip : head ≠ e.command → searchFrom pbuffer cmdSize es (index + 1) =
        some (match (e :: es).findIdx? fun e => head == e.command with
          | some i => index + UInt8.ofNat i
          | none => cmdSearchNull) := fun hne => by
      rw [hnext, List.findIdx?_cons, beq_false_of_ne hne]
      cases es.findIdx? fun e => head == e.command with
      | none => rfl
      | some i => simp [UInt8.ofNat_add, UInt8.add_assoc, UInt8.add_comm]
    unfold searchFrom
    by_cases hs : cmdSize = e.comsize
    · have hiff := hhead e List.mem_cons_self
      rw [if_pos hs, hs, hcmp]
      subst hs
      by_cases heq : head = e.command
      · rw [decide_eq_true (hiff.2 heq).2, List.findIdx?_cons, heq, beq_self_eq_true]
        simp
      · rw [decide_eq_false fun h => heq (hiff.1 ⟨rfl, h⟩)]
        exact hskip heq
    · rw [if_neg hs]
      exact hskip fun heq => hs ((hhead e List.mem_cons_self).2 heq).1

theorem cmdStructList_ok :
    ∀ e ∈ cmdStructList, 0 ∉ e.command ∧ e.comsize.toNat = e.command.length := by
  decide

theorem cmdStructList_nodup : (cmdStructList.map (·.command)).Nodup := by decide

/-- No two entries have the same command, so the first hit is the only one. -/
theorem findIdx_command_iff (head : List UInt8) {i : ℕ} (hi : i < cmdStructList.length) :
    cmdStructList.findIdx? (fun e => head == e.command) = some i ↔ head = cmdStructList[i].command := by
  rw [List.findIdx?_eq_some_iff_getElem]
  constructor
  · rintro ⟨_, hhit, -⟩
    exact beq_iff_eq.1 hhit
  · rintro rfl
    refine ⟨hi, beq_self_eq_true _, fun j hj => ?_⟩
    rw [beq_iff_eq]
    intro heq
    have hi' : i < (cmdStructList.map (·.command)).length := by rwa [List.length_map]
    have hj' : j < (cmdStructList.map (·.command)).length := hj.trans hi'
    have hsame : (cmdStructList.map (·.command))[i] = (cmdStructList.map (·.command))[j] := by
      rwa [List.getElem_map, List.getElem_map]
    have hinj := cmdStructList_nodup.getElem_inj_iff.1 hsame
    omega

/-- The index `search_cmd_list` returns is an entry's iff the entry has the
command. -/
theorem searchCmdList_iff {pbuffer : List UInt8} (head : List UInt8) {cmdSize : UInt8} (hz : 0 ∈ pbuffer)
    (hhead : ∀ e ∈ cmdStructList, (cmdSize = e.comsize ∧ (cstr pbuffer).take cmdSize.toNat = e.command) ↔
      head = e.command) :
    ∃ index, searchCmdList pbuffer cmdSize = some index ∧
      ∀ (i : ℕ) (hi : i < cmdStructList.length), index.toNat = i ↔ head = cmdStructList[i].command := by
  refine ⟨_, searchFrom_eq hz cmdStructList cmdStructList_ok hhead 0, fun i hi => ?_⟩
  rw [← findIdx_command_iff head hi]
  have hfour : cmdStructList.length = 4 := rfl
  cases hfind : cmdStructList.findIdx? fun e => head == e.command with
  | none =>
    refine iff_of_false (fun heq => ?_) nofun
    have heq : 255 = i := heq
    omega
  | some j =>
    obtain ⟨hj, -⟩ := List.findIdx?_eq_some_iff_getElem.1 hfind
    simp only [UInt8.zero_add, Option.some.injEq]
    rw [UInt8.toNat_ofNat_of_lt' (show j < 256 by omega)]

section Process

variable {frame rest : List UInt8} {len : UInt8} (hlen : len.toNat = frame.length)
include hlen

/-- Where the head is cut does not matter to the comparison of `strncmp`. -/
theorem head_iff_whole {e : CmdCommandStruct} (he : 0 ∉ e.command ∧ e.comsize.toNat = e.command.length) :
    (len = e.comsize ∧ (cstr frame).take len.toNat = e.command) ↔ frame = e.command := by
  have hpre := cstr_isPrefix frame
  constructor
  · rintro ⟨hsize, htake⟩
    rw [List.take_of_length_le (by rw [hlen]; exact hpre.length_le)] at htake
    rw [← htake]
    refine (hpre.eq_of_length ?_).symm
    rw [htake, ← he.2, ← hsize, hlen]
  · rintro rfl
    refine ⟨UInt8.toNat_inj.1 (by rw [hlen, he.2]), ?_⟩
    rw [cstr_eq_self he.1, hlen, List.take_length]

omit hlen in
theorem head_iff_cut {k : ℕ} (hk : k ≤ (cstr frame).length) (hk8 : k < 256) {e : CmdCommandStruct}
    (he : e.comsize.toNat = e.command.length) :
    (UInt8.ofNat k = e.comsize ∧ (cstr frame).take (UInt8.ofNat k).toNat = e.command) ↔
      frame.take k = e.command := by
  have htake : (cstr frame).take k = frame.take k := by
    have hpre := List.prefix_iff_eq_take.1 (cstr_isPrefix frame)
    calc (cstr frame).take k = (frame.take (cstr frame).length).take k := by rw [← hpre]
      _ = frame.take k := by rw [List.take_take, Nat.min_eq_left hk]
  have hofNat : (UInt8.ofNat k).toNat = k := UInt8.toNat_ofNat_of_lt' hk8
  rw [hofNat, htake]
  constructor
  · exact fun h => h.2
  · intro heq
    refine ⟨UInt8.toNat_inj.1 ?_, heq⟩
    have := (cstr_isPrefix frame).length_le
    rw [hofNat, he, ← heq, List.length_take]
    omega

omit hlen in
/-- The one call `cmd_protocol_process` can make. -/
theorem exact_of_call {pbuffer : List UInt8} {c : ComCall} (hframe : pbuffer.take len.toNat = frame)
    (hiff : ∀ (i : ℕ) (hi : i < cmdStructList.length),
      c.entry.toNat = i ↔ (tokenise frame).1 = cmdStructList[i].command)
    (hargs : c.Denotes pbuffer frame) :
    Dispatch.Exact ⟨pbuffer, len, if c.entry.toNat < cmdStructList.length then [c] else []⟩ := by
  refine ⟨fun i hi => ?_, fun c' hc' => ?_, ?_⟩
  · show _ ↔ (tokenise (pbuffer.take len.toNat)).1 = _
    rw [hframe, ← hiff i hi]
    constructor
    · rintro ⟨c', hc', hi'⟩
      split at hc'
      · rwa [List.mem_singleton.1 hc'] at hi'
      · cases hc'
    · intro hi'
      exact ⟨c, by rw [if_pos (by omega)]; exact List.mem_singleton_self c, hi'⟩
  · show c'.Denotes pbuffer (pbuffer.take len.toNat)
    rw [hframe]
    simp only at hc'
    split at hc'
    · rwa [List.mem_singleton.1 hc']
    · cases hc'
  · show (if c.entry.toNat < cmdStructList.length then [c] else []).length ≤ 1
    split
    · exact Nat.le_refl 1
    · exact Nat.zero_le 1

/-- **A frame goes to the entry its command names.** -/
theorem cmdProtocolProcess_exact (rest : List UInt8) (hlt : frame.length < 256) :
    ∃ calls, cmdProtocolProcess (frame ++ 0 :: rest) len = some calls ∧
      Dispatch.Exact ⟨frame ++ 0 :: rest, len, calls⟩ := by
  have hz : 0 ∈ frame ++ 0 :: rest := List.mem_append_right _ List.mem_cons_self
  have hframe : (frame ++ 0 :: rest).take len.toNat = frame := by rw [hlen, List.take_left]
  have hptr := strchr_eq hz (show space ≠ 0 by decide)
  rw [cstr_append_zero] at hptr
  by_cases hsp : space ∈ cstr frame
  · -- cut at the space
    have hk := List.idxOf_lt_length_of_mem hsp
    have hle := (cstr_isPrefix frame).length_le
    have htok : tokenise frame = (frame.take ((cstr frame).idxOf space),
        some (frame.drop ((cstr frame).idxOf space + 1))) := if_pos hsp
    rw [if_pos hsp] at hptr
    generalize (cstr frame).idxOf space = k at hk htok hptr
    obtain ⟨index, hsearch, hiff⟩ := searchCmdList_iff (frame.take k) hz fun e he => by
      rw [cstr_append_zero]
      exact head_iff_cut hk.le (by omega) (cmdStructList_ok e he).2
    have hdatasize : (len - UInt8.ofNat k - 1).toNat = frame.length - (k + 1) := by
      have hk8 : (UInt8.ofNat k).toNat = k := UInt8.toNat_ofNat_of_lt' (show k < 256 by omega)
      have hsub : (len - UInt8.ofNat k).toNat = frame.length - k := by
        rw [UInt8.toNat_sub_of_le _ _ (UInt8.le_iff_toNat_le.2 (by omega)), hlen, hk8]
      rw [UInt8.toNat_sub_of_le _ _ (UInt8.le_iff_toNat_le.2 (by
        rw [hsub, show (1 : UInt8).toNat = 1 from rfl]
        omega)), hsub]
      rfl
    refine ⟨_, ?_, exact_of_call (c := ⟨index, some (k + 1), len - UInt8.ofNat k - 1⟩) hframe
      (by rw [htok]; exact hiff) ?_⟩
    · simp only [cmdProtocolProcess, hptr, hsearch, Option.bind_eq_bind, Option.bind_some]
      split <;> rfl
    · simp only [ComCall.Denotes, htok, hdatasize, List.length_take, List.length_drop,
        Nat.min_eq_left (show k ≤ frame.length by omega), true_and]
      rw [List.drop_append_of_le_length (by omega), ← List.length_drop, List.take_left]
  · -- no space
    have htok : tokenise frame = (frame, none) := if_neg hsp
    rw [if_neg hsp] at hptr
    obtain ⟨index, hsearch, hiff⟩ := searchCmdList_iff frame hz fun e he => by
      rw [cstr_append_zero]
      exact head_iff_whole hlen (cmdStructList_ok e he)
    refine ⟨_, ?_, exact_of_call (c := ⟨index, none, 0⟩) hframe (by rw [htok]; exact hiff) ?_⟩
    · simp only [cmdProtocolProcess, hptr, hsearch, Option.bind_eq_bind, Option.bind_some]
      split <;> rfl
    · simp only [ComCall.Denotes, htok, and_self]

end Process

/-! ## The gathered bytes -/

/-- The bytes gathered so far and the next one. -/
def keep (acc : List UInt8) (c : UInt8) : List UInt8 := if c ≠ cr ∧ c ≠ lf then acc ++ [c] else acc

/-- What a byte does to the bytes gathered so far; the frame it completes. -/
def gather (acc : List UInt8) (c : UInt8) : List UInt8 × Option (List UInt8) :=
  if c = lf ∨ (keep acc c).length ≥ commandMaxSize then ([], some (keep acc c)) else (keep acc c, none)

/-- The frames of a stream. -/
def frames (acc : List UInt8) : List UInt8 → List (List UInt8)
  | [] => []
  | c :: cs => (gather acc c).2.toList ++ frames (gather acc c).1 cs

/-- The buffer holds the bytes `acc`. -/
structure Gathers (b : LoggerCommandBuffer) (acc : List UInt8) : Prop where
  index_eq : b.index.toNat = acc.length
  le : acc.length ≤ commandMaxSize
  bytes : acc <+: b.rxBuffer.toList

theorem cmdProtocolInit_gathers : Gathers cmdProtocolInit.loggerBuffer [] := ⟨rfl, Nat.zero_le _, List.nil_prefix⟩

theorem gather_lt (acc : List UInt8) (c : UInt8) : (gather acc c).1.length < commandMaxSize := by
  unfold gather
  split
  · exact (by decide : 0 < commandMaxSize)
  · next h => exact Nat.lt_of_not_le fun hle => h (.inr hle)

section Store

variable {b : LoggerCommandBuffer} {acc : List UInt8} (h : Gathers b acc)
include h

/-- A store behind the gathered bytes is in bounds. -/
theorem Gathers.store (c : UInt8) :
    ∃ b', b.store c = some b' ∧ b'.index = b.index ∧ acc ++ [c] <+: b'.rxBuffer.toList := by
  have hle := h.le
  obtain ⟨v, hstore, hv⟩ := storeBytes_append h.bytes [c]
    (by rw [List.length_singleton]; omega)
  refine ⟨{ b with rxBuffer := v }, ?_, rfl, hv⟩
  unfold LoggerCommandBuffer.store
  rw [h.index_eq, hstore]
  rfl

/-- The first half of `cmd_process` keeps the byte. -/
theorem Gathers.push (hlt : acc.length < commandMaxSize) (c : UInt8) :
    ∃ b', b.push c = some b' ∧ Gathers b' (keep acc c) := by
  unfold LoggerCommandBuffer.push keep
  split
  · obtain ⟨b', hstore, hindex, hbytes⟩ := h.store c
    have hsnoc : (acc ++ [c]).length = acc.length + 1 := List.length_append
    refine ⟨{ b' with index := b'.index + 1 }, by rw [hstore]; rfl, ?_, by omega, hbytes⟩
    have := h.index_eq
    simp only [commandMaxSize] at hlt
    simp only [hindex, UInt8.toNat_add, UInt8.reduceToNat, hsnoc]
    omega
  · exact ⟨b, rfl, h⟩

/-- The second half: the frame is closed with a zero and dispatched. -/
theorem Gathers.dispatch :
    ∃ b' calls, b.store 0 = some b' ∧ cmdProtocolProcess b'.rxBuffer.toList b'.index = some calls ∧
      (⟨b'.rxBuffer.toList, b'.index, calls⟩ : Dispatch).frame = acc ∧ b'.index.toNat = acc.length ∧
      Dispatch.Exact ⟨b'.rxBuffer.toList, b'.index, calls⟩ := by
  have hle := h.le
  simp only [commandMaxSize] at hle
  obtain ⟨b', hstore, hindex, rest, hbytes⟩ := h.store 0
  rw [List.append_assoc, List.singleton_append] at hbytes
  have hlen : b'.index.toNat = acc.length := by rw [hindex, h.index_eq]
  obtain ⟨calls, hcalls, hexact⟩ := cmdProtocolProcess_exact hlen rest (by omega)
  rw [hbytes] at hcalls hexact
  refine ⟨b', calls, hstore, hcalls, ?_, hlen, hexact⟩
  show b'.rxBuffer.toList.take b'.index.toNat = acc
  rw [← hbytes, hlen, List.take_left]

end Store

/-- **One call of `cmd_process`** stays inside the buffer, keeps the gathered
bytes and dispatches the frame the byte completes. -/
theorem cmdProcess_gathers {s : CmdState} {acc : List UInt8} (h : Gathers s.loggerBuffer acc)
    (hlt : acc.length < commandMaxSize) (c : UInt8) :
    ∃ s' ds, cmdProcess s c = some s' ∧ Gathers s'.loggerBuffer (gather acc c).1 ∧
      s'.log = s.log ++ ds ∧ ds.map (·.frame) = (gather acc c).2.toList ∧
      ∀ d ∈ ds, d.len.toNat = d.frame.length ∧ d.Exact := by
  obtain ⟨b, hkeep, hb⟩ := h.push hlt c
  unfold cmdProcess gather
  simp only [hkeep, Option.bind_eq_bind, Option.pure_def, Option.bind_some, hb.index_eq]
  by_cases hend : c = lf ∨ (keep acc c).length ≥ commandMaxSize
  · obtain ⟨b', calls, hstore, hcalls, hframe, hlen, hexact⟩ := hb.dispatch
    simp only [hend, ↓reduceIte, hstore, hcalls, Option.bind_some]
    refine ⟨_, [⟨b'.rxBuffer.toList, b'.index, calls⟩], rfl, ⟨rfl, Nat.zero_le _, List.nil_prefix⟩, rfl, ?_,
      fun d hd => ?_⟩
    · rw [List.map_singleton, hframe]
      rfl
    · rw [List.mem_singleton.1 hd, hframe]
      exact ⟨hlen, hexact⟩
  · simp only [hend, ↓reduceIte]
    exact ⟨_, [], rfl, hb, (List.append_nil _).symm, rfl, nofun⟩

/-- **A whole stream.** -/
theorem exec_cmdProcess (bs : List UInt8) {s : CmdState} {acc : List UInt8}
    (h : Gathers s.loggerBuffer acc) (hlt : acc.length < commandMaxSize) :
    ∃ s' acc' ds, exec cmdProcess s bs = some s' ∧ Gathers s'.loggerBuffer acc' ∧
      acc'.length < commandMaxSize ∧ s'.log = s.log ++ ds ∧ ds.map (·.frame) = frames acc bs ∧
      ∀ d ∈ ds, d.len.toNat = d.frame.length ∧ d.Exact := by
  induction bs generalizing s acc with
  | nil => exact ⟨s, acc, [], rfl, h, hlt, (List.append_nil _).symm, rfl, nofun⟩
  | cons c bs ih =>
    obtain ⟨s1, ds1, hstep, h1, hlog1, hframes1, hall1⟩ := cmdProcess_gathers h hlt c
    obtain ⟨s2, acc2, ds2, hrun, h2, hlt2, hlog2, hframes2, hall2⟩ := ih h1 (gather_lt acc c)
    refine ⟨s2, acc2, ds1 ++ ds2, exec_cons.2 ⟨s1, hstep, hrun⟩, h2, hlt2, ?_, ?_, fun d hd => ?_⟩
    · rw [hlog2, hlog1, List.append_assoc]
    · rw [List.map_append, hframes1, hframes2]
      rfl
    · rcases List.mem_append.1 hd with hd | hd
      · exact hall1 d hd
      · exact hall2 d hd

/-- **Dispatch is exact on every stream**: no access leaves `rx_buffer`, the
index is below its limit between calls, the frames dispatched are those of the
stream, and every frame goes to the entry its command names and to no other. -/
theorem cmd_process_exact (bs : List UInt8) :
    ∃ s, exec cmdProcess cmdProtocolInit bs = some s ∧ s.loggerBuffer.index.toNat < commandMaxSize ∧
      s.log.map (·.frame) = frames [] bs ∧ ∀ d ∈ s.log, d.Exact := by
  obtain ⟨s, acc, ds, hrun, h, hlt, hlog, hframes, hall⟩ :=
    exec_cmdProcess bs cmdProtocolInit_gathers (by decide)
  have hlog : s.log = ds := hlog
  refine ⟨s, hrun, by rwa [h.index_eq], by rw [hlog, hframes], fun d hd => ?_⟩
  rw [hlog] at hd
  exact (hall d hd).2

end Stm32Handler.Logger
