import Stm32Handler.Lib.Run

/-!
# Frames on a select line

What a master does with a select line that is active low and the bytes it
exchanges, in one log. `lineStep` follows the level of the line: a frame starts
at a high level, and no byte is sent at one. `framesOf` takes the frames out of
a log; on a log of whole frames (`frameLog`) the line ends high and nothing is
lost.
-/

namespace Stm32Handler

variable {α : Type*}

inductive LineEvent (α : Type*) where
  /-- the line goes low -/
  | select
  /-- the line goes high -/
  | release
  | byte (a : α)

/-- The level of the line, `true` for high. -/
def lineStep : Bool → LineEvent α → Option Bool
  | true, .select => some false
  | false, .byte _ => some false
  | _, .release => some true
  | _, _ => none

/-- One whole frame after the other. -/
def frameLog (fs : List (List α)) : List (LineEvent α) :=
  fs.flatMap fun f => .select :: (f.map .byte ++ [.release])

/-- The bytes up to the next change of the line. -/
def bytesUpTo : List (LineEvent α) → List α
  | .byte a :: log => a :: bytesUpTo log
  | _ => []

def framesOf : List (LineEvent α) → List (List α)
  | [] => []
  | .select :: log => bytesUpTo log :: framesOf log
  | .release :: log | .byte _ :: log => framesOf log

theorem frameLog_append (fs gs : List (List α)) : frameLog (fs ++ gs) = frameLog fs ++ frameLog gs :=
  List.flatMap_append

theorem exec_bytes (f : List α) : exec lineStep false (f.map LineEvent.byte) = some false := by
  induction f with
  | nil => rfl
  | cons a f ih => exact exec_cons.2 ⟨false, rfl, ih⟩

theorem exec_frameLog (fs : List (List α)) : exec lineStep true (frameLog fs) = some true := by
  induction fs with
  | nil => rfl
  | cons f fs ih =>
    apply exec_append.2
    refine ⟨true, exec_cons.2 ⟨false, rfl, ?_⟩, ih⟩
    exact exec_append.2 ⟨false, exec_bytes f, rfl⟩

/-- A frame that is not closed leaves the line low. -/
theorem exec_frameLog_open (fs : List (List α)) (f : List α) :
    exec lineStep true (frameLog fs ++ .select :: f.map .byte) = some false := by
  apply exec_append.2
  exact ⟨true, exec_frameLog fs, exec_cons.2 ⟨false, rfl, exec_bytes f⟩⟩

theorem framesOf_frameLog (fs : List (List α)) : framesOf (frameLog fs) = fs := by
  have hbytes : ∀ (f : List α) log, bytesUpTo (f.map .byte ++ .release :: log) = f := by
    intro f log
    induction f with
    | nil => rfl
    | cons a f ih => rw [List.map_cons, List.cons_append, bytesUpTo, ih]
  have hskip : ∀ (f : List α) log, framesOf (f.map .byte ++ .release :: log) = framesOf log := by
    intro f log
    induction f with
    | nil => rfl
    | cons a f ih => rw [List.map_cons, List.cons_append, framesOf, ih]
  induction fs with
  | nil => rfl
  | cons f fs ih =>
    have hcons : frameLog (f :: fs) = .select :: (f.map .byte ++ .release :: frameLog fs) := by
      rw [frameLog, List.flatMap_cons, List.cons_append, List.append_assoc]
      rfl
    rw [hcons, framesOf, hbytes, hskip, ih]

end Stm32Handler
