import Mathlib

/-!
# Directories

What each name of a file system holds, and the two calls that take a name away:
`unlink` and `rename`. A rename onto a name replaces what that name held; a
missing source and a name renamed to itself leave everything as it is.
-/

set_option autoImplicit false

namespace Floofclaw.Lib

/-- The content of each name, `none` where there is no such file. -/
abbrev Directory (ν κ : Type) := ν → Option κ

namespace Directory

variable {ν κ : Type} [DecidableEq ν]

def write (d : Directory ν κ) (name : ν) (content : κ) : Directory ν κ := Function.update d name (some content)

def unlink (d : Directory ν κ) (name : ν) : Directory ν κ := Function.update d name none

def rename (d : Directory ν κ) (src dst : ν) : Directory ν κ :=
  match d src with
  | none => d
  | some content => if src = dst then d else (unlink d src).write dst content

@[simp] theorem write_same (d : Directory ν κ) (name : ν) (content : κ) : write d name content name = some content :=
  Function.update_self ..

theorem write_other {d : Directory ν κ} {name other : ν} (content : κ) (h : other ≠ name) :
    write d name content other = d other := Function.update_of_ne h ..

@[simp] theorem unlink_same (d : Directory ν κ) (name : ν) : unlink d name name = none := Function.update_self ..

theorem unlink_other {d : Directory ν κ} {name other : ν} (h : other ≠ name) : unlink d name other = d other :=
  Function.update_of_ne h ..

theorem rename_of_none {d : Directory ν κ} {src : ν} (h : d src = none) (dst : ν) : rename d src dst = d := by
  rw [rename, h]

theorem rename_of_some {d : Directory ν κ} {src dst : ν} {content : κ} (h : d src = some content) (hne : src ≠ dst) :
    rename d src dst = (unlink d src).write dst content := by
  rw [rename, h]
  exact if_neg hne

/-- A rename touches its two names only. -/
theorem rename_other {d : Directory ν κ} {src dst other : ν} (hne : src ≠ dst) (hsrc : other ≠ src) (hdst : other ≠ dst) :
    rename d src dst other = d other := by
  cases h : d src with
  | none => rw [rename_of_none h]
  | some content => rw [rename_of_some h hne, write_other _ hdst, unlink_other hsrc]

theorem rename_src (d : Directory ν κ) {src dst : ν} (hne : src ≠ dst) : rename d src dst src = none := by
  cases h : d src with
  | none => rw [rename_of_none h, h]
  | some content => rw [rename_of_some h hne, write_other _ hne, unlink_same]

/-- Onto a free name a rename carries whatever the source holds. -/
theorem rename_dst {d : Directory ν κ} {src dst : ν} (hne : src ≠ dst) (hfree : d dst = none) :
    rename d src dst dst = d src := by
  cases h : d src with
  | none => rw [rename_of_none h, hfree]
  | some content => rw [rename_of_some h hne, write_same]

end Directory
end Floofclaw.Lib
