import Mathlib.Data.List.Basic
import Mathlib.Data.Nat.Notation

/-!
# One file of a FatFs volume

The volume shows a file through its directory entry: `entry` is the content up
to the size the entry records, none when the file does not exist. An open
object `FIL` carries its own size and its sector buffer; `f_write` changes
these only, `f_sync` publishes them, and `f_open` takes the size from the entry
and clears the buffer (`FF_FS_TINY` is 0). With `FF_FS_LOCK` 0 nothing keeps
the same object from being opened again.

The disk and the allocation table never fail here, and the volume has room:
what remains of the error returns is the missing or existing file and the
invalid object.
-/

namespace Stm32Handler.FatfsLog

inductive FResult where
  | ok
  | noFile
  | exist
  | invalidObject
  deriving DecidableEq

/-- The numbers of `FRESULT`. -/
def FResult.code : FResult → UInt8
  | .ok => 0
  | .noFile => 4
  | .exist => 8
  | .invalidObject => 9

/-- `FIL`: `valid` is a set `obj.fs`, `content` the first `obj.objsize` bytes
as the object would read them. -/
structure Fil where
  valid : Bool
  content : List UInt8
  fptr : ℕ
  /-- `FA_MODIFIED` -/
  modified : Bool

/-- The content the directory entry shows. -/
abbrev Entry := Option (List UInt8)

inductive OpenMode where
  /-- `FA_WRITE` -/
  | write
  /-- `FA_CREATE_NEW | FA_WRITE` -/
  | createNewWrite

/-- `f_open`. -/
def fOpen (entry : Entry) (fp : Fil) (mode : OpenMode) : FResult × Entry × Fil :=
  match mode, entry with
  | .write, some content => (.ok, entry, { valid := true, content := content, fptr := 0, modified := false })
  | .write, none => (.noFile, entry, { fp with valid := false })
  | .createNewWrite, none => (.ok, some [], { valid := true, content := [], fptr := 0, modified := true })
  | .createNewWrite, some _ => (.exist, entry, { fp with valid := false })

/-- `f_size`. -/
def fSize (fp : Fil) : ℕ := fp.content.length

/-- `f_lseek`. Past the end it extends the file by bytes FatFs leaves
undefined, zero here; the log never seeks past the end. -/
def fLseek (fp : Fil) (ofs : ℕ) : FResult × Fil :=
  if fp.valid then
    (.ok, { fp with
      content := fp.content ++ List.replicate (ofs - fSize fp) 0
      fptr := ofs
      modified := fp.modified || fSize fp < ofs })
  else (.invalidObject, fp)

/-- `f_write`. -/
def fWrite (fp : Fil) (buff : List UInt8) : FResult × Fil :=
  if fp.valid then
    (.ok, { fp with
      content := fp.content.take fp.fptr ++ buff ++ fp.content.drop (fp.fptr + buff.length)
      fptr := fp.fptr + buff.length
      modified := true })
  else (.invalidObject, fp)

/-- `f_sync`. -/
def fSync (entry : Entry) (fp : Fil) : FResult × Entry × Fil :=
  if fp.valid then
    if fp.modified then (.ok, some fp.content, { fp with modified := false }) else (.ok, entry, fp)
  else (.invalidObject, entry, fp)

/-- `f_close`. -/
def fClose (entry : Entry) (fp : Fil) : FResult × Entry × Fil :=
  match fSync entry fp with
  | (.ok, entry, fp) => (.ok, entry, { fp with valid := false })
  | (res, entry, fp) => (res, entry, fp)

/-! ## An object that appends

`Appending fp published pending`: the object stands at its end, and its
content is the published one followed by what it has not published yet. -/

structure Appending (entry : Entry) (fp : Fil) (published pending : List UInt8) : Prop where
  entry_eq : entry = some published
  valid : fp.valid = true
  content_eq : fp.content = published ++ pending
  fptr_eq : fp.fptr = fp.content.length
  /-- `f_sync` will not skip anything -/
  modified : fp.modified = false → pending = []

variable {entry : Entry} {fp : Fil} {published pending : List UInt8}

/-- An open and a seek to the end: what was not published is gone. -/
theorem fOpen_write_appending (published : List UInt8) (fp : Fil) :
    ∃ fp' fp'', fOpen (some published) fp .write = (.ok, some published, fp') ∧
      fLseek fp' (fSize fp') = (.ok, fp'') ∧ Appending (some published) fp'' published [] := by
  refine ⟨_, _, rfl, rfl, rfl, rfl, ?_, ?_, fun _ => rfl⟩
  · simp [fSize]
  · simp [fSize]

theorem fOpen_createNew_appending (fp : Fil) :
    ∃ fp', fOpen none fp .createNewWrite = (.ok, some [], fp') ∧ Appending (some []) fp' [] [] :=
  ⟨_, rfl, rfl, rfl, rfl, rfl, fun _ => rfl⟩

theorem Appending.fWrite (h : Appending entry fp published pending) (buff : List UInt8) :
    ∃ fp', FatfsLog.fWrite fp buff = (.ok, fp') ∧
      Appending entry fp' published (pending ++ buff) := by
  have hall : fp.content.take fp.fptr = fp.content := by rw [h.fptr_eq, List.take_length]
  have hnone : fp.content.drop (fp.fptr + buff.length) = [] :=
    List.drop_eq_nil_of_le (by rw [h.fptr_eq]; omega)
  unfold FatfsLog.fWrite
  rw [if_pos h.valid, hall, hnone, List.append_nil]
  refine ⟨_, rfl, h.entry_eq, h.valid, ?_, ?_, nofun⟩
  · rw [h.content_eq, List.append_assoc]
  · rw [h.fptr_eq, List.length_append]

theorem Appending.fSync (h : Appending entry fp published pending) :
    ∃ entry' fp', FatfsLog.fSync entry fp = (.ok, entry', fp') ∧
      Appending entry' fp' (published ++ pending) [] := by
  unfold FatfsLog.fSync
  rw [if_pos h.valid]
  by_cases hm : fp.modified = true
  · rw [if_pos hm]
    refine ⟨_, _, rfl, ?_, h.valid, ?_, h.fptr_eq, fun _ => rfl⟩
    · rw [h.content_eq]
    · rw [List.append_nil, h.content_eq]
  · rw [if_neg hm]
    have hpend := h.modified (Bool.eq_false_iff.2 hm)
    refine ⟨_, _, rfl, ?_, h.valid, ?_, h.fptr_eq, fun _ => rfl⟩
    · rw [hpend, List.append_nil, h.entry_eq]
    · rw [List.append_nil, h.content_eq]

theorem Appending.fClose (h : Appending entry fp published pending) :
    ∃ fp', FatfsLog.fClose entry fp = (.ok, some (published ++ pending), fp') ∧
      fp'.valid = false := by
  obtain ⟨entry', fp', hs, ha⟩ := h.fSync
  unfold FatfsLog.fClose
  rw [hs, ha.entry_eq]
  exact ⟨_, rfl, rfl⟩

theorem fClose_invalid (entry : Entry) (h : fp.valid = false) :
    FatfsLog.fClose entry fp = (.invalidObject, entry, fp) := by
  unfold FatfsLog.fClose FatfsLog.fSync
  rw [if_neg (by rw [h]; exact Bool.false_ne_true)]

end Stm32Handler.FatfsLog
