import Stm32Handler.FatfsLog.File
import Stm32Handler.Lib.Append

/-!
# The log file

`fatfs_logs_init` opens the log file at its end, `fatfs_device_write` appends a
record and syncs after every 101st, `fatfs_device_close` closes it; a write on
a closed log opens the file again.

The re-open leaves `state` at `FATFS_LOG_CLOSE`, so from the first close on
every write opens the file again, over the object the write before it has not
closed. `LogView` says what that does to the file: `published` and `pending`
bytes, and a write that `reopens` drops the pending ones. `Shows` ties it to
the code. A run keeps every record exactly when no write that reopens finds
pending bytes (`LogView.collects`), which `Flushed` spells out on the calls.
-/

namespace Stm32Handler.FatfsLog

def fatfsLogOk : UInt8 := 0
def fatfsLogMountError : UInt8 := 1
def fatfsLogFileError : UInt8 := 2
def fatfsLogSeekError : UInt8 := 3
def fatfsLogWriteError : UInt8 := 5
def fatfsLogOsError : UInt8 := 6

/-- `FATFS_SYNC_MAX_TIMES`. -/
def fatfsSyncMaxTimes : ℕ := 100

/-- `FATFS_LOG_IDLE`, `FATFS_LOG_OPEN`, `FATFS_LOG_CLOSE`. -/
inductive LogState where
  | idle
  | opened
  | closed

/-- The fields of `FATFS_LOG_INFO` behind the file, and the file on the volume. -/
structure FatfsLogInfo where
  state : LogState
  wTimes : ℕ
  fFile : Fil
  entry : Entry

/-- The end of `fatfs_logs_init`; `osInit` is the result of `fatfs_os_init`. -/
def fatfsLogsStart (osInit : Bool) (g : FatfsLogInfo) : UInt8 × FatfsLogInfo :=
  if osInit then (fatfsLogOk, { g with state := .opened }) else (fatfsLogOsError, g)

/-- `fatfs_logs_init`; `mount` is the result of `f_mount`. -/
def fatfsLogsInit (mount : FResult) (osInit : Bool) (entry : Entry) : UInt8 × FatfsLogInfo :=
  let g : FatfsLogInfo :=
    { state := .closed, wTimes := 0, fFile := ⟨false, [], 0, false⟩, entry := entry }
  if mount ≠ .ok then (fatfsLogMountError, g) else
  match fOpen g.entry g.fFile .write with
  | (.noFile, entry, fp) =>
    match fOpen entry fp .createNewWrite with
    | (.ok, entry, fp) => fatfsLogsStart osInit { g with entry := entry, fFile := fp }
    | (_, entry, fp) => (fatfsLogFileError, { g with entry := entry, fFile := fp })
  | (.ok, entry, fp) =>
    match fLseek fp (fSize fp) with
    | (.ok, fp) => fatfsLogsStart osInit { g with entry := entry, fFile := fp }
    | (_, fp) => (fatfsLogSeekError, { g with entry := entry, fFile := fp })
  | (_, entry, fp) => (fatfsLogFileError, { g with entry := entry, fFile := fp })

/-- The re-open of `fatfs_device_write`. -/
def fatfsDeviceReopen (g : FatfsLogInfo) : UInt8 × FatfsLogInfo :=
  match fOpen g.entry g.fFile .write with
  | (.ok, entry, fp) =>
    match fLseek fp (fSize fp) with
    | (.ok, fp) => (fatfsLogOk, { g with entry := entry, fFile := fp })
    | (_, fp) => (fatfsLogSeekError, { g with entry := entry, fFile := fp })
  | (_, entry, fp) => (fatfsLogFileError, { g with entry := entry, fFile := fp })

/-- The rest of `fatfs_device_write`; the result of `f_sync` is not looked at. -/
def fatfsDeviceAppend (g : FatfsLogInfo) (ptr : List UInt8) : UInt8 × FatfsLogInfo :=
  match fWrite g.fFile ptr with
  | (.ok, fp) =>
    if g.wTimes + 1 > fatfsSyncMaxTimes then
      let (_, entry, fp) := fSync g.entry fp
      (fatfsLogOk, { g with entry := entry, fFile := fp, wTimes := 0 })
    else (fatfsLogOk, { g with fFile := fp, wTimes := g.wTimes + 1 })
  | (_, fp) => (fatfsLogWriteError, { g with fFile := fp })

/-- `fatfs_device_write`. -/
def fatfsDeviceWrite (g : FatfsLogInfo) (ptr : List UInt8) : UInt8 × FatfsLogInfo :=
  match g.state with
  | .idle => (fatfsLogFileError, g)
  | .closed =>
    let (status, g) := fatfsDeviceReopen g
    if status = fatfsLogOk then fatfsDeviceAppend g ptr else (status, g)
  | .opened => fatfsDeviceAppend g ptr

/-- `fatfs_device_close`. -/
def fatfsDeviceClose (g : FatfsLogInfo) : UInt8 × FatfsLogInfo :=
  match g.state with
  | .idle => (fatfsLogFileError, g)
  | _ =>
    let (res, entry, fp) := fClose g.entry g.fFile
    (res.code, { g with state := .closed, entry := entry, fFile := fp })

inductive LogOp where
  | write (ptr : List UInt8)
  | close

/-- The calls `ops` in order, with the payloads of the writes that returned
`FATFS_LOG_OK`. -/
def logRun (g : FatfsLogInfo) : List LogOp → FatfsLogInfo × List (List UInt8)
  | [] => (g, [])
  | .write ptr :: ops =>
    let (status, g) := fatfsDeviceWrite g ptr
    let (g, accepted) := logRun g ops
    (g, if status = fatfsLogOk then ptr :: accepted else accepted)
  | .close :: ops => logRun (fatfsDeviceClose g).2 ops

/-! ## What the file shows -/

/-- The log as its file has it: the bytes the entry shows, those only the open
object has, and whether the next write opens the file again. -/
structure LogView where
  published : List UInt8
  pending : List UInt8
  reopens : Bool
  wTimes : ℕ

namespace LogView

def contents (v : LogView) : List UInt8 := v.published ++ v.pending

def append (v : LogView) (ptr : List UInt8) : LogView :=
  if v.wTimes + 1 > fatfsSyncMaxTimes then
    { v with published := v.published ++ (v.pending ++ ptr), pending := [], wTimes := 0 }
  else { v with pending := v.pending ++ ptr, wTimes := v.wTimes + 1 }

def write (v : LogView) (ptr : List UInt8) : LogView :=
  if v.reopens then append { v with pending := [] } ptr else v.append ptr

def close (v : LogView) : LogView :=
  { v with published := v.published ++ v.pending, pending := [], reopens := true }

def step (v : LogView) : LogOp → Option LogView
  | .write ptr => some (v.write ptr)
  | .close => some v.close

/-- The step loses nothing. -/
def Keeps (v : LogView) : LogOp → Prop
  | .write _ => v.reopens = true → v.pending = []
  | .close => True

/-- Right after `fatfs_logs_init`. -/
def start (content : List UInt8) : LogView :=
  { published := content, pending := [], reopens := false, wTimes := 0 }

@[simp] theorem contents_append (v : LogView) (ptr : List UInt8) :
    (v.append ptr).contents = v.contents ++ ptr := by
  unfold append contents
  split <;> simp

theorem append_reopens (v : LogView) (ptr : List UInt8) : (v.append ptr).reopens = v.reopens := by
  unfold append
  split <;> rfl

theorem append_wTimes (v : LogView) (ptr : List UInt8) :
    (v.append ptr).wTimes = if v.wTimes + 1 > fatfsSyncMaxTimes then 0 else v.wTimes + 1 := by
  unfold append
  split <;> rfl

theorem write_reopens (v : LogView) (ptr : List UInt8) : (v.write ptr).reopens = v.reopens := by
  unfold write
  split
  · rw [append_reopens]
  · rw [append_reopens]

theorem write_wTimes (v : LogView) (ptr : List UInt8) :
    (v.write ptr).wTimes = if v.wTimes + 1 > fatfsSyncMaxTimes then 0 else v.wTimes + 1 := by
  unfold write
  split
  · rw [append_wTimes]
  · rw [append_wTimes]

/-- A write that opens the file again leaves its own bytes pending at most. -/
theorem write_pending {v : LogView} (hv : v.reopens = true) (ptr : List UInt8) :
    (v.write ptr).pending = if v.wTimes + 1 > fatfsSyncMaxTimes then [] else ptr := by
  unfold write append
  rw [if_pos hv]
  split <;> rfl

end LogView

/-- What one call brings to the file. -/
def LogOp.payload : LogOp → List UInt8
  | .write ptr => ptr
  | .close => []

/-- The view collects payloads and loses what a re-open finds pending. -/
theorem LogView.collects : Collects LogView.step LogView.contents LogOp.payload LogView.Keeps where
  keep := by
    intro v a v' hs hk
    cases a with
    | write ptr =>
      cases hs
      unfold write
      by_cases hv : v.reopens = true
      · rw [if_pos hv, contents_append]
        simp only [contents, hk hv, LogOp.payload]
      · rw [if_neg hv, contents_append, LogOp.payload]
    | close =>
      cases hs
      simp [contents, close, LogOp.payload]
  lose := by
    intro v a v' hs hk
    cases a with
    | write ptr =>
      cases hs
      simp only [Keeps, Classical.not_imp] at hk
      obtain ⟨hv, hpend⟩ := hk
      have hpos : 0 < v.pending.length := List.length_pos_iff.2 hpend
      unfold write
      rw [if_pos hv, contents_append]
      simp only [contents, LogOp.payload, List.length_append, List.length_nil]
      omega
    | close => exact absurd trivial hk

/-! ## The code follows the view -/

structure Shows (g : FatfsLogInfo) (v : LogView) : Prop where
  state : g.state = if v.reopens then .closed else .opened
  wTimes : g.wTimes = v.wTimes
  entry : g.entry = some v.published
  file : Appending g.entry g.fFile v.published v.pending ∨
    v.reopens = true ∧ v.pending = [] ∧ g.fFile.valid = false

theorem fatfsLogsStart_ok {osInit : Bool} {g g' : FatfsLogInfo}
    (h : fatfsLogsStart osInit g = (fatfsLogOk, g')) : g' = { g with state := .opened } := by
  unfold fatfsLogsStart at h
  split at h
  · cases h
    rfl
  · exact absurd (congrArg Prod.fst h) (show ¬ fatfsLogOsError = fatfsLogOk by decide)

theorem fatfsLogsInit_shows {mount : FResult} {osInit : Bool} {entry : Entry} {g : FatfsLogInfo}
    (h : fatfsLogsInit mount osInit entry = (fatfsLogOk, g)) :
    Shows g (.start (entry.getD [])) := by
  unfold fatfsLogsInit at h
  by_cases hm : mount = .ok
  · rw [if_neg (not_not.2 hm)] at h
    cases entry with
    | none =>
      obtain ⟨fp', hopen, happ⟩ := fOpen_createNew_appending ⟨false, [], 0, false⟩
      have h := fatfsLogsStart_ok h
      subst h
      cases hopen
      exact ⟨rfl, rfl, rfl, .inl happ⟩
    | some content =>
      obtain ⟨fp', fp'', hopen, hseek, happ⟩ :=
        fOpen_write_appending content ⟨false, [], 0, false⟩
      simp only [hopen, hseek] at h
      have h := fatfsLogsStart_ok h
      subst h
      exact ⟨rfl, rfl, rfl, .inl happ⟩
  · rw [if_pos hm] at h
    exact absurd (congrArg Prod.fst h) (show ¬ fatfsLogMountError = fatfsLogOk by decide)

theorem fatfsDeviceReopen_ok {g : FatfsLogInfo} {published : List UInt8}
    (h : g.entry = some published) :
    ∃ fp, fatfsDeviceReopen g = (fatfsLogOk, { g with fFile := fp }) ∧
      Appending g.entry fp published [] := by
  obtain ⟨fp', fp'', hopen, hseek, happ⟩ := fOpen_write_appending published g.fFile
  unfold fatfsDeviceReopen
  rw [h]
  simp only [hopen, hseek]
  exact ⟨fp'', by rw [← h], happ⟩

theorem fatfsDeviceAppend_shows {g : FatfsLogInfo} {v : LogView} (h : Shows g v)
    (happ : Appending g.entry g.fFile v.published v.pending) (ptr : List UInt8) :
    ∃ g', fatfsDeviceAppend g ptr = (fatfsLogOk, g') ∧ Shows g' (v.append ptr) := by
  obtain ⟨fp, hw, happ⟩ := happ.fWrite ptr
  unfold fatfsDeviceAppend LogView.append
  simp only [hw, h.wTimes]
  split
  · obtain ⟨entry', fp', hs, happ⟩ := happ.fSync
    simp only [hs]
    exact ⟨_, rfl, h.state, rfl, happ.entry_eq, .inl happ⟩
  · exact ⟨_, rfl, h.state, rfl, h.entry, .inl happ⟩

/-- Every write of a running log is accepted. -/
theorem fatfsDeviceWrite_shows {g : FatfsLogInfo} {v : LogView} (h : Shows g v) (ptr : List UInt8) :
    ∃ g', fatfsDeviceWrite g ptr = (fatfsLogOk, g') ∧ Shows g' (v.write ptr) := by
  unfold fatfsDeviceWrite LogView.write
  by_cases hv : v.reopens = true
  · obtain ⟨fp, hre, happ⟩ := fatfsDeviceReopen_ok h.entry
    have hstate := h.state
    rw [if_pos hv] at hstate ⊢
    rw [hstate]
    simp only [hre, ↓reduceIte]
    exact fatfsDeviceAppend_shows (g := { g with fFile := fp }) (v := { v with pending := [] })
      ⟨h.state, h.wTimes, h.entry, .inl happ⟩ happ ptr
  · have hstate := h.state
    rw [if_neg hv] at hstate ⊢
    rw [hstate]
    exact fatfsDeviceAppend_shows h (h.file.resolve_right fun hf => hv hf.1) ptr

theorem fatfsDeviceClose_shows {g : FatfsLogInfo} {v : LogView} (h : Shows g v) :
    Shows (fatfsDeviceClose g).2 v.close := by
  have hclose : (fatfsDeviceClose g).2 =
      { g with
        state := .closed
        entry := (fClose g.entry g.fFile).2.1
        fFile := (fClose g.entry g.fFile).2.2 } := by
    have hstate := h.state
    unfold fatfsDeviceClose
    split
    · next hidle =>
      rw [hidle] at hstate
      split at hstate <;> cases hstate
    · rfl
  rw [hclose]
  rcases h.file with happ | ⟨-, hpend, hinvalid⟩
  · obtain ⟨fp, hc, hinvalid⟩ := happ.fClose
    rw [hc]
    exact ⟨rfl, h.wTimes, rfl, .inr ⟨rfl, rfl, hinvalid⟩⟩
  · rw [fClose_invalid g.entry hinvalid]
    refine ⟨rfl, h.wTimes, ?_, .inr ⟨rfl, rfl, hinvalid⟩⟩
    rw [h.entry, LogView.close, hpend, List.append_nil]

/-- The run of the code is a run of the view, and all its writes are accepted. -/
theorem logRun_shows {g : FatfsLogInfo} {v : LogView} (h : Shows g v) (ops : List LogOp) :
    ∃ v', exec LogView.step v ops = some v' ∧ Shows (logRun g ops).1 v' ∧
      (logRun g ops).2.flatten = ops.flatMap LogOp.payload := by
  induction ops generalizing g v with
  | nil => exact ⟨v, rfl, h, rfl⟩
  | cons op ops ih =>
    cases op with
    | write ptr =>
      obtain ⟨g', hw, h'⟩ := fatfsDeviceWrite_shows h ptr
      obtain ⟨v', hrun, hshow, hacc⟩ := ih h'
      refine ⟨v', exec_cons.2 ⟨_, rfl, hrun⟩, ?_, ?_⟩
      · simp only [logRun, hw]
        exact hshow
      · simp only [logRun, hw, ↓reduceIte, List.flatten_cons, hacc, List.flatMap_cons, LogOp.payload]
    | close =>
      obtain ⟨v', hrun, hshow, hacc⟩ := ih (fatfsDeviceClose_shows h)
      exact ⟨v', exec_cons.2 ⟨_, rfl, hrun⟩, hshow, hacc⟩

/-! ## When nothing is lost -/

def LogOp.isWrite : LogOp → Bool
  | .write _ => true
  | .close => false

/-- After the first close, a write with a payload is directly followed by
another write only if it is a 101st one, which syncs. -/
def Flushed (ops : List LogOp) : Prop :=
  ∀ pre p q post, ops = pre ++ .write p :: .write q :: post → .close ∈ pre → p ≠ [] →
    (pre.countP LogOp.isWrite + 1) % (fatfsSyncMaxTimes + 1) = 0

namespace LogView

theorem exec_total (v : LogView) (ops : List LogOp) : ∃ v', exec step v ops = some v' := by
  induction ops generalizing v with
  | nil => exact ⟨v, rfl⟩
  | cons op ops ih =>
    cases op with
    | write ptr => exact ih (v.write ptr)
    | close => exact ih v.close

theorem exec_snoc {v m : LogView} {pre : List LogOp} {a : LogOp}
    (h : exec step v (pre ++ [a]) = some m) :
    ∃ m', exec step v pre = some m' ∧ step m' a = some m := by
  obtain ⟨m', hpre, h⟩ := exec_append.1 h
  obtain ⟨m'', hs, h⟩ := exec_cons.1 h
  cases h
  exact ⟨m', hpre, hs⟩

/-- The log reopens from the first close on. -/
theorem exec_reopens {content : List UInt8} {pre : List LogOp} {m : LogView}
    (h : exec step (start content) pre = some m) : m.reopens = true ↔ .close ∈ pre := by
  induction pre using List.reverseRecOn generalizing m with
  | nil =>
    cases h
    simp [start]
  | append_singleton pre a ih =>
    obtain ⟨m', hpre, hs⟩ := exec_snoc h
    cases a with
    | write p =>
      cases hs
      rw [write_reopens, ih hpre]
      simp
    | close =>
      cases hs
      simp [close]

/-- The counter that restarts after `k` counts modulo `k + 1`. -/
theorem countdown_succ (n k : ℕ) :
    (if n % (k + 1) + 1 > k then 0 else n % (k + 1) + 1) = (n + 1) % (k + 1) := by
  have hlt : n % (k + 1) < k + 1 := Nat.mod_lt n (Nat.succ_pos k)
  rw [← Nat.mod_add_mod n (k + 1) 1]
  by_cases hlast : n % (k + 1) + 1 > k
  · rw [if_pos hlast, show n % (k + 1) + 1 = k + 1 by omega, Nat.mod_self]
  · rw [if_neg hlast]
    exact (Nat.mod_eq_of_lt (by omega)).symm

theorem exec_wTimes {content : List UInt8} {pre : List LogOp} {m : LogView}
    (h : exec step (start content) pre = some m) :
    m.wTimes = pre.countP LogOp.isWrite % (fatfsSyncMaxTimes + 1) := by
  induction pre using List.reverseRecOn generalizing m with
  | nil =>
    cases h
    rfl
  | append_singleton pre a ih =>
    obtain ⟨m', hpre, hs⟩ := exec_snoc h
    have hm' := ih hpre
    rw [List.countP_append]
    cases a with
    | write p =>
      cases hs
      rw [write_wTimes, hm']
      exact countdown_succ _ _
    | close =>
      cases hs
      exact hm'

/-- No step of the run loses anything iff the calls are flushed. -/
theorem along_keeps_iff {content : List UInt8} {ops : List LogOp} {v : LogView}
    (hrun : exec step (start content) ops = some v) :
    Along step Keeps (start content) ops ↔ Flushed ops := by
  rw [along_iff hrun]
  constructor
  · intro hkeeps pre p q post hcut hclose hp
    obtain ⟨m, hpre⟩ := exec_total (start content) pre
    have hsnoc : exec step (start content) (pre ++ [.write p]) = some (m.write p) :=
      exec_append.2 ⟨m, hpre, rfl⟩
    have hreopens := (exec_reopens hpre).2 hclose
    have hpend := hkeeps (pre ++ [.write p]) (.write q) post _ (by rw [hcut]; simp) hsnoc
      (by rw [write_reopens, hreopens])
    rw [write_pending hreopens, exec_wTimes hpre] at hpend
    split at hpend
    · simp only [fatfsSyncMaxTimes] at *
      omega
    · exact absurd hpend hp
  · intro hflush pre a post m hcut hpre
    cases a with
    | close => trivial
    | write q =>
      intro hreopens
      -- what is pending was left by the last call before the write
      induction pre using List.reverseRecOn with
      | nil =>
        cases hpre
        rfl
      | append_singleton pre b _ =>
        obtain ⟨m', hpre', hs⟩ := exec_snoc hpre
        cases b with
        | close =>
          cases hs
          rfl
        | write p =>
          cases hs
          rw [write_reopens] at hreopens
          rw [write_pending hreopens, exec_wTimes hpre']
          by_cases hp : p = []
          · rw [hp, ite_self]
          · have hmod := hflush pre p q post (by rw [hcut]; simp) ((exec_reopens hpre').1 hreopens) hp
            rw [if_pos (by simp only [fatfsSyncMaxTimes] at *; omega)]

end LogView

/-- **The log file is the concatenation of the accepted records exactly when the
calls are flushed**: the content a final close leaves is the initial content and
then the payloads of the accepted writes iff, after the first close, a write
with a payload is directly followed by another one only where the log syncs. -/
theorem fatfs_log_concat_iff (mount : FResult) (osInit : Bool) (entry : Entry) (g : FatfsLogInfo)
    (hinit : fatfsLogsInit mount osInit entry = (fatfsLogOk, g)) (ops : List LogOp) :
    (fatfsDeviceClose (logRun g ops).1).2.entry =
        some (entry.getD [] ++ (logRun g ops).2.flatten) ↔ Flushed ops := by
  obtain ⟨v, hrun, hshow, hacc⟩ := logRun_shows (fatfsLogsInit_shows hinit) ops
  rw [(fatfsDeviceClose_shows hshow).entry, hacc, Option.some_inj, ← LogView.along_keeps_iff hrun,
    ← LogView.collects.run_iff hrun]
  simp [LogView.start, LogView.contents, LogView.close]

/-- A record, a close, and another record, which nothing follows. -/
theorem fatfs_log_concat_iff_reopened :
    ∃ g, fatfsLogsInit .ok true (some [1]) = (fatfsLogOk, g) ∧
      ((fatfsDeviceClose (logRun g [.write [2], .close, .write [3]]).1).2.entry =
        some ([1] ++ (logRun g [.write [2], .close, .write [3]]).2.flatten) ↔
          Flushed [.write [2], .close, .write [3]]) :=
  ⟨_, rfl, fatfs_log_concat_iff .ok true (some [1]) _ rfl [.write [2], .close, .write [3]]⟩

/-- Two records after a close: the second write opens the file again over the
first one's buffer. -/
theorem fatfs_log_record_lost :
    ¬ ∀ (mount : FResult) (osInit : Bool) (entry : Entry) (g : FatfsLogInfo),
      fatfsLogsInit mount osInit entry = (fatfsLogOk, g) → ∀ ops : List LogOp,
        (fatfsDeviceClose (logRun g ops).1).2.entry =
          some (entry.getD [] ++ (logRun g ops).2.flatten) := by
  intro h
  have hlost := h .ok true none _ rfl [.close, .write [1], .write [2]]
  exact absurd hlost (by decide)

end Stm32Handler.FatfsLog
