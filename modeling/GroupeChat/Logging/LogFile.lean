/-
  GroupeChat.Logging.LogFile — the file of the log (`AppendFile`, `LogFile`).

  `write` may take less than it is given; `AppendFile.append` goes on with the rest until
  all is taken or a call takes nothing. The first call is not in the loop: if that one
  takes nothing it is tried again. What gets to the file is always the beginning of what
  was given (`append_prefix`), all of it unless a later call takes nothing (`append_whole`).
  `LogFile` flushes after every `flushEveryN_` appends.
-/

import Mathlib.Data.List.Basic

namespace GroupeChat.Logging

/-- What the stream took, and how much of it is out of its buffer for certain. -/
structure AppendFile where
  written : List UInt8
  flushed : Nat
  deriving DecidableEq, Repr

namespace AppendFile

/-- `fwrite_unlocked`, which takes `takes` bytes if it is given as many. -/
def write (f : AppendFile) (logline : List UInt8) (takes : Nat) : Nat × AppendFile :=
  (min takes logline.length, { f with written := f.written ++ logline.take takes })

/-- The loop: `takes i` is what call `i` is ready to take. -/
def appendRest (takes : Nat → Nat) (i : Nat) (f : AppendFile) (rest : List UInt8) : AppendFile :=
  if rest = [] then f
  else if _h : min (takes i) rest.length = 0 then f
  else appendRest takes (i + 1) (f.write rest (takes i)).2 (rest.drop (takes i))
  termination_by rest.length
  decreasing_by
    rw [List.length_drop]
    omega

def append (f : AppendFile) (logline : List UInt8) (takes : Nat → Nat) : AppendFile :=
  appendRest takes 1 (f.write logline (takes 0)).2 (logline.drop (takes 0))

def flush (f : AppendFile) : AppendFile := { f with flushed := f.written.length }

theorem appendRest_prefix (takes : Nat → Nat) : ∀ {n i : Nat} {f : AppendFile} {rest : List UInt8}, rest.length ≤ n →
    ∃ k, (appendRest takes i f rest).written = f.written ++ rest.take k ∧
      (appendRest takes i f rest).flushed = f.flushed := by
  intro n
  induction n with
  | zero =>
    intro i f rest h
    obtain rfl : rest = [] := List.eq_nil_of_length_eq_zero (by omega)
    exact ⟨0, by simp [appendRest], by simp [appendRest]⟩
  | succ n ih =>
    intro i f rest h
    rw [appendRest]
    split
    · exact ⟨0, by simp, rfl⟩
    · rename_i hne
      split
      · exact ⟨0, by simp, rfl⟩
      · rename_i hx
        have hdrop : (rest.drop (takes i)).length ≤ n := by
          rw [List.length_drop]
          omega
        obtain ⟨k, hk, hf⟩ := ih (i := i + 1) (f := (f.write rest (takes i)).2) hdrop
        refine ⟨takes i + k, ?_, hf⟩
        rw [hk]
        show f.written ++ rest.take (takes i) ++ (rest.drop (takes i)).take k = _
        rw [List.append_assoc, ← List.take_add]

theorem appendRest_whole {takes : Nat → Nat} (ht : ∀ i, 0 < i → 0 < takes i) :
    ∀ {n i : Nat} {f : AppendFile} {rest : List UInt8}, rest.length ≤ n → 0 < i →
      (appendRest takes i f rest).written = f.written ++ rest := by
  intro n
  induction n with
  | zero =>
    intro i f rest h _
    obtain rfl : rest = [] := List.eq_nil_of_length_eq_zero (by omega)
    simp [appendRest]
  | succ n ih =>
    intro i f rest h hi
    have hpos := ht i hi
    rw [appendRest]
    split
    · rename_i hnil
      simp [hnil]
    · rename_i hne
      have hlen : 0 < rest.length := List.length_pos_iff.mpr hne
      rw [dif_neg (by omega), ih (by rw [List.length_drop]; omega) (Nat.succ_pos i)]
      show f.written ++ rest.take (takes i) ++ rest.drop (takes i) = _
      rw [List.append_assoc, List.take_append_drop]

/-- Whatever the stream takes, it is the beginning of the line. -/
theorem append_prefix (f : AppendFile) (logline : List UInt8) (takes : Nat → Nat) :
    ∃ k, (f.append logline takes).written = f.written ++ logline.take k ∧
      (f.append logline takes).flushed = f.flushed := by
  obtain ⟨k, hk, hf⟩ := appendRest_prefix takes (i := 1) (f := (f.write logline (takes 0)).2)
    (Nat.le_refl (logline.drop (takes 0)).length)
  refine ⟨takes 0 + k, ?_, hf⟩
  rw [append, hk]
  show f.written ++ logline.take (takes 0) ++ (logline.drop (takes 0)).take k = _
  rw [List.append_assoc, ← List.take_add]

/-- A stream that goes on taking something takes the whole line. -/
theorem append_whole {takes : Nat → Nat} (ht : ∀ i, 0 < i → 0 < takes i) (f : AppendFile) (logline : List UInt8) :
    (f.append logline takes).written = f.written ++ logline := by
  rw [append, appendRest_whole ht (Nat.le_refl _) Nat.one_pos]
  show f.written ++ logline.take (takes 0) ++ logline.drop (takes 0) = _
  rw [List.append_assoc, List.take_append_drop]

end AppendFile

structure LogFile where
  flushEveryN_ : Nat
  count_ : Nat
  file_ : AppendFile
  deriving DecidableEq, Repr

namespace LogFile

def init : LogFile := ⟨1024, 0, ⟨[], 0⟩⟩

def append (f : LogFile) (logline : List UInt8) (takes : Nat → Nat) : LogFile :=
  let file := f.file_.append logline takes
  let count := f.count_ + 1
  if f.flushEveryN_ ≤ count then { f with count_ := 0, file_ := file.flush }
  else { f with count_ := count, file_ := file }

def flush (f : LogFile) : LogFile := { f with file_ := f.file_.flush }

theorem append_written {takes : Nat → Nat} (ht : ∀ i, 0 < i → 0 < takes i) (f : LogFile) (logline : List UInt8) :
    (f.append logline takes).file_.written = f.file_.written ++ logline := by
  have hfile := AppendFile.append_whole ht f.file_ logline
  unfold append
  dsimp only
  split
  · exact hfile
  · exact hfile

end LogFile

end GroupeChat.Logging
