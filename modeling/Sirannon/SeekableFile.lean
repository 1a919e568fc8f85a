import Mathlib.Data.List.Basic
import Mathlib.Tactic.Common

/-!
# Seekable files

A file is what was written to it and a position. Writing puts its bytes over
what is there, or behind it.
-/

set_option autoImplicit false

namespace SeekableFile

variable {α : Type}

def overwrite (bytes : List α) (pos : ℕ) (bs : List α) : List α :=
  bytes.take pos ++ bs ++ bytes.drop (pos+bs.length)

structure File (α : Type) where
  bytes : List α
  pos : ℕ

def File.new : File α := ⟨[], 0⟩

def File.write (f : File α) (bs : List α) : File α := ⟨overwrite f.bytes f.pos bs, f.pos+bs.length⟩

def File.seek (f : File α) (pos : ℕ) : File α := { f with pos := pos }

theorem overwrite_nil (bytes : List α) (pos : ℕ) : overwrite bytes pos [] = bytes := by
  simp [overwrite]

/-- At the end there is nothing to write over. -/
theorem overwrite_end (bytes bs : List α) : overwrite bytes bytes.length bs = bytes ++ bs := by
  rw [overwrite, List.take_length, List.drop_eq_nil_of_le (by omega), List.append_nil]

theorem overwrite_length {bytes bs : List α} {pos : ℕ} (h : pos+bs.length ≤ bytes.length) :
    (overwrite bytes pos bs).length = bytes.length := by
  simp only [overwrite, List.length_append, List.length_take, List.length_drop]
  omega

/-- What stands before the position stays. -/
theorem overwrite_append (front bytes bs : List α) {pos : ℕ} (h : front.length ≤ pos) :
    overwrite (front++bytes) pos bs = front ++ overwrite bytes (pos-front.length) bs := by
  rw [overwrite, overwrite, List.take_append, List.take_of_length_le h, List.drop_append,
    List.drop_eq_nil_of_le (by omega), List.nil_append]
  have hshift : pos+bs.length-front.length = pos-front.length+bs.length := by omega
  rw [hshift]
  simp only [List.append_assoc]

end SeekableFile
