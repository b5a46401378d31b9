import Stm32Handler.Spi.W25qRun

/-!
# What `WQ_OP_OK` says

The operations look at the result of one exchange, that of the command byte,
and at the status register. `WQ_OP_OK` says that both waits ended with the busy
bit clear and that the command byte went out, with all bytes after it tried; it
says nothing of how these went.
-/

namespace Stm32Handler.Spi

variable {ans : Answers} {id : BitVec 32}

def IsStatusRead (f : List Exchange) : Prop := ∃ e ∈ f.head?, e.tx = w25xInstruRdsr1

/-- The last status read of every wait came back without the busy bit. -/
def WaitsEnd : List (List Exchange) → Prop
  | [] => True
  | f :: fs => (IsStatusRead f → (∀ g ∈ fs.head?, ¬ IsStatusRead g) →
      ∀ e ∈ f.getLast?, e.rx &&& 0x1 = 0) ∧ WaitsEnd fs

namespace WqOp

/-- A frame of `fs` is the whole command, and its exchanges that `P` asks for
are `HAL_OK`. -/
def Commanded (id : BitVec 32) (op : WqOp) (P : ℕ → Prop) (fs : List (List Exchange)) : Prop :=
  ∃ f ∈ fs, f.map Exchange.tx = op.instruct :: op.rest id ∧
    ∀ i, P i → ∀ e ∈ f[i]?, e.ok = true

def run (ans : Answers) (id : BitVec 32) (op : WqOp) : WqOpStatus × Line :=
  (op.call (lineBus ans).toWqBus id).run idleLine

/-- All exchanges of the command, its address and its data reported, and an
error for a chip of another manufacturer. -/
structure Truthful (ans : Answers) (id : BitVec 32) (op : WqOp) : Prop where
  of_ok : (op.run ans id).1 = .ok → getManufacturerId id = wq25ManufacturerId ∧
    op.Commanded id (fun _ => True) (framesOf (op.run ans id).2.log) ∧
      WaitsEnd (framesOf (op.run ans id).2.log)
  of_unmatched : getManufacturerId id ≠ wq25ManufacturerId →
    (op.run ans id).1 ≠ .ok ∧ (op.run ans id).2.log = []

end WqOp

/-! ## Waits -/

theorem isStatusRead_statusBytes (p : ℕ) : IsStatusRead (exchanges ans p statusBytes) :=
  ⟨_, rfl, rfl⟩

theorem waitsEnd_cons {f : List Exchange} (hf : ¬ IsStatusRead f) (fs : List (List Exchange)) :
    WaitsEnd (f :: fs) ↔ WaitsEnd fs :=
  and_iff_right fun h => absurd h hf

/-- A wait that something else follows, or nothing. -/
theorem waitsEnd_statusFrames (p k : ℕ) {fs : List (List Exchange)}
    (hfs : ∀ g ∈ fs.head?, ¬ IsStatusRead g) :
    WaitsEnd (statusFrames ans p (k + 1) ++ fs) ↔ ClearAt ans p k ∧ WaitsEnd fs := by
  induction k generalizing p with
  | zero =>
    refine and_congr_left fun _ => ⟨fun h => ?_, fun h _ _ e he => ?_⟩
    · exact h (isStatusRead_statusBytes p) hfs _ rfl
    · cases he
      exact h
  | succ k ih =>
    rw [statusFrames, List.cons_append, WaitsEnd, ih, clearAt_succ]
    refine and_iff_right fun _ hnext => ?_
    exact absurd (isStatusRead_statusBytes _) (hnext _ rfl)

/-- A wait at the end. -/
theorem waitsEnd_last (p k : ℕ) : WaitsEnd (statusFrames ans p (k + 1)) ↔ ClearAt ans p k := by
  rw [← List.append_nil (statusFrames ans p (k + 1)), waitsEnd_statusFrames p k (by simp)]
  exact and_iff_left trivial

theorem not_isStatusRead {p : ℕ} {b : Byte} {bs : List Byte} (hb : b ≠ w25xInstruRdsr1) :
    ¬ IsStatusRead (exchanges ans p (b :: bs)) := by
  rintro ⟨e, he, htx⟩
  cases he
  exact hb htx

/-! ## The command -/

/-- A frame of `wq_wait_busy` or `wq_write_enable`. -/
def Serves (f : List Exchange) : Prop :=
  ∃ e ∈ f.head?, e.tx = w25xInstruRdsr1 ∨ e.tx = w25xInstruWren

theorem serves_wren (p : ℕ) : Serves (exchanges ans p [w25xInstruWren]) := ⟨_, rfl, .inr rfl⟩

theorem serves_statusFrames (p k : ℕ) : ∀ f ∈ statusFrames ans p k, Serves f := by
  induction k generalizing p with
  | zero => nofun
  | succ k ih =>
    rw [statusFrames, List.forall_mem_cons]
    exact ⟨⟨_, rfl, .inl rfl⟩, ih (p + 2)⟩

theorem exchanges_map_tx (p : ℕ) (bs : List Byte) : (exchanges ans p bs).map Exchange.tx = bs := by
  induction bs generalizing p with
  | nil => rfl
  | cons b bs ih => rw [exchanges, List.map_cons, ih]

namespace WqOp

theorem instruct_ne_rdsr1 (op : WqOp) : op.instruct ≠ w25xInstruRdsr1 := by
  cases op <;> exact of_decide_eq_true rfl

theorem instruct_ne_wren (op : WqOp) : op.instruct ≠ w25xInstruWren := by
  cases op <;> exact of_decide_eq_true rfl

theorem serves_opening (op : WqOp) : ∀ f ∈ op.opening ans, Serves f := by
  cases op with
  | memoryWrite addr pbuffer => nofun
  | _ => exact fun f hf => List.mem_singleton.1 hf ▸ serves_wren 0

theorem serves_lead (k : ℕ) (op : WqOp) : ∀ f ∈ op.lead ans k, Serves f := by
  intro f hf
  rw [lead, List.mem_append, List.mem_append] at hf
  rcases hf with hf | hf | hf
  · exact op.serves_opening f hf
  · exact serves_statusFrames _ _ f hf
  · cases op with
    | memoryWrite addr pbuffer => exact List.mem_singleton.1 hf ▸ serves_wren (2 * k)
    | _ => cases hf

/-- Among frames that serve it, only the command itself counts. -/
theorem commanded_iff (op : WqOp) {c : ℕ} {fs gs : List (List Exchange)} (hfs : ∀ f ∈ fs, Serves f)
    (hgs : ∀ f ∈ gs, Serves f) :
    op.Commanded id (· = 0) (fs ++ [commandFrame ans c op.instruct (op.rest id)] ++ gs) ↔
      (ans.exchange c).2 = true := by
  constructor
  · rintro ⟨f, hf, htx, hok⟩
    have hother : ¬ Serves f := by
      rintro ⟨e, he, hserves⟩
      cases f with
      | nil => cases he
      | cons e' es =>
        cases he
        have hinstruct : e.tx = op.instruct := (List.cons.inj htx).1
        rw [hinstruct] at hserves
        exact hserves.elim op.instruct_ne_rdsr1 op.instruct_ne_wren
    rw [List.mem_append, List.mem_append, List.mem_singleton] at hf
    rcases hf with (hf | rfl) | hf
    · exact absurd (hfs f hf) hother
    · exact hok 0 rfl _ rfl
    · exact absurd (hgs f hf) hother
  · intro hok
    refine ⟨commandFrame ans c op.instruct (op.rest id), by simp, ?_, ?_⟩
    · rw [commandFrame, exchanges_map_tx, if_pos hok]
    · rintro i rfl e he
      cases he
      exact hok

/-- The first wait of an operation, with what follows it. -/
theorem waitsEnd_opening (op : WqOp) (k : ℕ) {fs : List (List Exchange)}
    (hfs : ∀ g ∈ fs.head?, ¬ IsStatusRead g) :
    WaitsEnd (op.opening ans ++ (statusFrames ans op.waitStart (k + 1) ++ fs)) ↔
      ClearAt ans op.waitStart k ∧ WaitsEnd fs := by
  have hopening : ∀ gs, WaitsEnd (op.opening ans ++ gs) ↔ WaitsEnd gs := by
    cases op with
    | memoryWrite addr pbuffer => exact fun _ => Iff.rfl
    | _ => exact waitsEnd_cons (not_isStatusRead (by decide))
  rw [hopening, waitsEnd_statusFrames _ _ hfs]

theorem waitsEnd_lead (op : WqOp) (k : ℕ) {f : List Exchange} (hf : ¬ IsStatusRead f)
    (fs : List (List Exchange)) :
    WaitsEnd (op.lead ans (k + 1) ++ [f] ++ fs) ↔ ClearAt ans op.waitStart k ∧ WaitsEnd fs := by
  have hlead : op.lead ans (k + 1) ++ [f] ++ fs =
      op.opening ans ++ (statusFrames ans op.waitStart (k + 1) ++ (op.enabling ans (k + 1) ++ f :: fs)) := by
    rw [lead]
    simp only [List.append_assoc, List.singleton_append]
  have hwren : ∀ p, ¬ IsStatusRead (exchanges ans p [w25xInstruWren]) :=
    fun p => not_isStatusRead (by decide)
  have henabling : (∀ g ∈ (op.enabling ans (k + 1) ++ f :: fs).head?, ¬ IsStatusRead g) ∧
      (WaitsEnd (op.enabling ans (k + 1) ++ f :: fs) ↔ WaitsEnd fs) := by
    cases op with
    | memoryWrite addr pbuffer =>
      refine ⟨fun g hg => ?_, (waitsEnd_cons (hwren _) _).trans (waitsEnd_cons hf fs)⟩
      cases hg
      exact hwren _
    | _ =>
      refine ⟨fun g hg => ?_, waitsEnd_cons hf fs⟩
      cases hg
      exact hf
  rw [hlead, op.waitsEnd_opening k henabling.1, henabling.2]

variable (hid : getManufacturerId id = wq25ManufacturerId)
include hid

/-- A chip of the manufacturer: `WQ_OP_OK` is the command byte taken and every
wait ended. -/
theorem run_ok_iff (op : WqOp) :
    (op.run ans id).1 = .ok ↔ op.Commanded id (· = 0) (framesOf (op.run ans id).2.log) ∧
      WaitsEnd (framesOf (op.run ans id).2.log) := by
  have hframes : ∀ fs : List (List Exchange), framesOf (idleLine.framed fs).log = fs :=
    framesOf_frameLog
  have hcommand : ∀ c rest, ¬ IsStatusRead (commandFrame ans c op.instruct rest) :=
    fun c rest => not_isStatusRead op.instruct_ne_rdsr1
  have hstatus : ∀ b : Bool, (if b then WqOpStatus.ok else .comErr) = .ok ↔ b = true := by
    decide
  by_cases hop : op.Waits
  · rcases hop.cases hid ans with ⟨k, hk, hafter, hrun⟩ | ⟨hbusy, hrun⟩
    · have hfinish := finishLine_cases ans (idleLine.framed (op.lead ans (k + 1) ++
        [commandFrame ans (2 * k + 3) op.instruct (op.rest id)])) op.mode (ans.exchange (2 * k + 3)).2
      rw [← hrun] at hfinish
      rcases hfinish with ⟨k', hk', hafter', hfinish⟩ | ⟨hbusy, hfinish⟩
      · have hend := (waitsEnd_last _ k').2 hafter'.clear
        rw [run, hfinish, Line.framed_framed, hframes, waitsEnd_lead op k (hcommand _ _),
          op.commanded_iff (op.serves_lead _) (serves_statusFrames _ _),
          and_iff_left ⟨hafter.clear, hend⟩]
        exact hstatus _
      · obtain ⟨n, hn⟩ : ∃ n, WqBus.waitRounds op.mode = n + 1 :=
          Nat.exists_eq_succ_of_ne_zero (by unfold WqBus.waitRounds; split <;> decide)
        rw [run, hfinish, Line.framed_framed, hframes, waitsEnd_lead op k (hcommand _ _), hn,
          waitsEnd_last]
        exact iff_of_false nofun fun h => hbusy n (by omega) h.2.2
    · rw [run, hrun, hframes, ← List.append_nil (statusFrames ..),
        show w25xWaitTimeout = 199 + 1 from rfl, op.waitsEnd_opening 199 (by simp)]
      exact iff_of_false nofun fun h => hbusy 199 (by decide) h.2.1
  · cases op with
    | memoryRead addr num =>
      have hwhole : (memoryRead addr num).Commanded id (· = 0) ([] ++ [commandFrame ans 0
          w25xInstruRead (addrBytes id addr ++ List.replicate num 0xFF)] ++ []) ↔
          (ans.exchange 0).2 = true := commanded_iff _ nofun nofun
      have hend : WaitsEnd [commandFrame ans 0 w25xInstruRead
          (addrBytes id addr ++ List.replicate num 0xFF)] := (waitsEnd_cons (hcommand _ _) []).2 trivial
      rw [run, call, wqMemoryRead_line hid, hframes, show idleLine.sent = 0 from rfl,
        and_iff_left hend]
      exact (hstatus _).trans hwhole.symm
    | _ => exact absurd trivial hop

end WqOp

/-- **What `WQ_OP_OK` says**, and that a chip of another manufacturer is sent
nothing. -/
theorem truthful_command_byte (ans : Answers) (id : BitVec 32) (op : WqOp) :
    (getManufacturerId id = wq25ManufacturerId →
        ((op.run ans id).1 = .ok ↔ op.Commanded id (· = 0) (framesOf (op.run ans id).2.log) ∧
          WaitsEnd (framesOf (op.run ans id).2.log))) ∧
      (getManufacturerId id ≠ wq25ManufacturerId → (op.run ans id).2.log = [] ∧
        ((∀ addr pbuffer, op ≠ .memoryWrite addr pbuffer) → (op.run ans id).1 ≠ .ok)) := by
  refine ⟨fun hid => op.run_ok_iff hid, fun hid => ?_⟩
  rw [WqOp.run, op.call_unmatched hid]
  refine ⟨rfl, fun hop => ?_⟩
  cases op with
  | memoryWrite addr pbuffer => exact absurd rfl (hop addr pbuffer)
  | _ => exact of_decide_eq_true rfl

/-- A read whose first address byte is not sent. -/
theorem address_unreported : ¬ ∀ (ans : Answers) (id : BitVec 32) (op : WqOp), op.Truthful ans id := by
  intro h
  have hread := (h ⟨fun p => if p = 1 then (0xFF, false) else (0, true), fun _ => false⟩ 0xEF13
    (.memoryRead 0 16)).of_ok (by decide +kernel)
  obtain ⟨-, ⟨f, hf, -, hok⟩, -⟩ := hread
  have hall : ∀ f ∈ framesOf ((WqOp.memoryRead 0 16).run
      ⟨fun p => if p = 1 then (0xFF, false) else (0, true), fun _ => false⟩ 0xEF13).2.log,
      ∃ e ∈ f[1]?, e.ok = false := by
    decide +kernel
  obtain ⟨e, he, hfail⟩ := hall f hf
  rw [hok 1 trivial e he] at hfail
  cases hfail

end Stm32Handler.Spi
