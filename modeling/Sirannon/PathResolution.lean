import Mathlib.Data.List.Basic
import Mathlib.Tactic.Common

/-!
# Resolving paths

A path is a list of segments that are followed from a folder, which is itself
given by the names that lead to it from the top. Followed on its own a path
first leaves some folders and then enters others; where it ends from any folder
depends on no more than that.
-/

set_option autoImplicit false

namespace Sirannon.PathResolution

variable {α : Type}

inductive Segment (α : Type)
  | here
  | up
  | name (n : α)
  deriving DecidableEq, Repr

/-- The folder above the top is the top. -/
def enter : List α → Segment α → List α
  | folder, .here => folder
  | folder, .up => folder.dropLast
  | folder, .name n => folder ++ [n]

def walk (folder : List α) (segments : List (Segment α)) : List α := segments.foldl enter folder

theorem walk_append (folder : List α) (first second : List (Segment α)) :
    walk folder (first++second) = walk (walk folder first) second := List.foldl_append ..

/-- How many folders a path leaves, and the names of those it then enters. -/
structure Climb (α : Type) where
  ups : ℕ
  names : List α
  deriving DecidableEq, Repr

def Climb.enter : Climb α → Segment α → Climb α
  | c, .here => c
  | c, .up => if c.names = [] then { c with ups := c.ups+1 } else { c with names := c.names.dropLast }
  | c, .name n => { c with names := c.names ++ [n] }

def climb (segments : List (Segment α)) : Climb α := segments.foldl Climb.enter ⟨0, []⟩

def Climb.after (c : Climb α) (folder : List α) : List α :=
  folder.take (folder.length-c.ups) ++ c.names

theorem enter_after (folder : List α) (c : Climb α) (s : Segment α) :
    enter (c.after folder) s = (c.enter s).after folder := by
  cases s with
  | here => rfl
  | up =>
    by_cases hnames : c.names = []
    · have hleft : c.enter .up = { c with ups := c.ups+1 } := if_pos hnames
      rw [hleft, Climb.after, Climb.after]
      simp only [hnames, List.append_nil, enter]
      rw [List.dropLast_eq_take, List.take_take, List.length_take]
      congr 1
      omega
    · have hleft : c.enter .up = { c with names := c.names.dropLast } := if_neg hnames
      rw [hleft, Climb.after, Climb.after, enter]
      exact List.dropLast_append_of_ne_nil hnames
  | name n => simp [enter, Climb.enter, Climb.after, List.append_assoc]

theorem walk_after (folder : List α) (segments : List (Segment α)) (c : Climb α) :
    walk (c.after folder) segments = (segments.foldl Climb.enter c).after folder := by
  induction segments generalizing c with
  | nil => rfl
  | cons s segments ih =>
    rw [walk, List.foldl_cons, enter_after, List.foldl_cons]
    exact ih (c.enter s)

/-- Where a path ends: it leaves folders, and enters others. -/
theorem walk_climb (folder : List α) (segments : List (Segment α)) :
    walk folder segments = (climb segments).after folder := by
  have hstart : (⟨0, []⟩ : Climb α).after folder = folder := by simp [Climb.after]
  rw [climb, ← walk_after, hstart]

/-! ## Confinement -/

/-- `file` lies in `folder`, or in a folder in it. -/
def Below (folder file : List α) : Prop := folder <+: file ∧ folder ≠ file

/-- A path enters all the folders that it left, by their names, and goes on. -/
def Returns (folder : List α) (c : Climb α) : Prop :=
  Below (folder.drop (folder.length-c.ups)) c.names

instance [DecidableEq α] (folder file : List α) : Decidable (Below folder file) :=
  inferInstanceAs (Decidable (_ ∧ _))

instance [DecidableEq α] (folder : List α) (c : Climb α) : Decidable (Returns folder c) :=
  inferInstanceAs (Decidable (Below _ _))

theorem below_append (top folder file : List α) :
    Below (top++folder) (top++file) ↔ Below folder file := by
  rw [Below, Below, List.prefix_append_right_inj, ne_eq, List.append_cancel_left_eq]

/-- A path stays below a folder exactly when it enters again what it left of it. -/
theorem below_walk (folder : List α) (segments : List (Segment α)) :
    Below folder (walk folder segments) ↔ Returns folder (climb segments) := by
  have hkept := below_append (folder.take (folder.length-(climb segments).ups))
    (folder.drop (folder.length-(climb segments).ups)) (climb segments).names
  rw [List.take_append_drop] at hkept
  rw [walk_climb]
  exact hkept

end Sirannon.PathResolution
