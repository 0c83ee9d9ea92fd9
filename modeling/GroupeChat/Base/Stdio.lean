/-
  GroupeChat.Base.Stdio — streams of the C library.

  A stream opened with `a+` writes at the end of the file wherever `fseek` has put it
  (`fwrite_content`), one opened with `r` takes nothing. `fread` comes back short only at
  the end of the file, and that is what sets `feof`.
-/

import Mathlib.Data.List.Basic

namespace GroupeChat.Base

structure File where
  /-- Opened with `a+`, else with `r`. -/
  append : Bool
  content : List UInt8
  pos : Nat
  eof : Bool

namespace File

def fopen (append : Bool) (content : List UInt8) : File := ⟨append, content, 0, false⟩

/-- `fseek` with `SEEK_SET`; it fails in front of the file. -/
def fseek (f : File) (off : Int) : File := if off < 0 then f else { f with pos := off.toNat, eof := false }

def fread (f : File) (n : Nat) : List UInt8 × File :=
  let l := (f.content.drop f.pos).take n
  (l, { f with pos := f.pos + l.length, eof := f.eof || l.length < n })

/-- How many bytes it has written, and the stream. -/
def fwrite (f : File) (l : List UInt8) : Nat × File :=
  if f.append then (l.length, { f with content := f.content ++ l, pos := f.content.length + l.length })
  else (0, f)

@[simp] theorem fseek_content (f : File) (off : Int) : (f.fseek off).content = f.content := by
  unfold fseek; split <;> rfl

@[simp] theorem fseek_append (f : File) (off : Int) : (f.fseek off).append = f.append := by
  unfold fseek; split <;> rfl

@[simp] theorem fwrite_append (f : File) (l : List UInt8) : (f.fwrite l).2.append = f.append := by
  unfold fwrite; split <;> rfl

theorem fwrite_content {f : File} (h : f.append = true) (l : List UInt8) : (f.fwrite l).2.content = f.content ++ l := by
  rw [fwrite, if_pos h]

theorem fwrite_nwrite {f : File} (h : f.append = true) (l : List UInt8) : (f.fwrite l).1 = l.length := by
  rw [fwrite, if_pos h]

end File

end GroupeChat.Base
