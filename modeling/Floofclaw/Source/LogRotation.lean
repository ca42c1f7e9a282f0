import Floofclaw.Lib.Bytes
import Floofclaw.Lib.Directory

/-!
# Log rotation

Model of `support/log_rotation.c` on the file system its callers share with the
compressors it leaves running. A compressor opens its file, writes the
compressed form beside it and then removes the name it was given, each at its
own time; what it makes of a content is a parameter. Names are formatted into
512 octets, as the source formats them. Renames of files that exist succeed.
-/

set_option autoImplicit false

namespace Floofclaw.Source.LogRotation
open Floofclaw.Lib

def slotNameMax : Nat := 512

abbrev Files := Directory Bytes Bytes

/-- The name of a slot's plain form in its buffer. -/
def slotName (path : Bytes) (slot : Nat) : Bytes := clip slotNameMax (path ++ lit "." ++ decNat slot)

/-- The name of a slot's gzipped form in its buffer. -/
def slotGzName (path : Bytes) (slot : Nat) : Bytes := clip slotNameMax (path ++ lit "." ++ decNat slot ++ lit ".gz")

/-- `shift_slot`; what does not exist is not renamed. -/
def shiftSlot (path : Bytes) (src dst : Nat) (d : Files) : Files :=
  (d.rename (slotName path src) (slotName path dst)).rename (slotGzName path src) (slotGzName path dst)

/-- `unlink_slot`. -/
def unlinkSlot (path : Bytes) (slot : Nat) (d : Files) : Files :=
  (d.unlink (slotName path slot)).unlink (slotGzName path slot)

/-- The shifts of slots `n` down to 1. -/
def shiftSlots (path : Bytes) : Nat → Files → Files
  | 0, d => d
  | n + 1, d => shiftSlots path n (shiftSlot path (n + 1) (n + 2) d)

/-- `fc_rotate_file`: whether it rotated, and the files after it. -/
def fcRotateFile (path : Bytes) (keep : Int) (d : Files) : Bool × Files :=
  if path = [] ∨ keep ≤ 0 then (false, d)
  else if lit ".." <:+: path then (false, d)
  else if d path = none then (false, d)
  else (true, (shiftSlots path (keep.toNat - 1) (unlinkSlot path keep.toNat d)).rename path (slotName path 1))

/-- A compressor, from its start on the name it was given. -/
inductive Gzip
  | spawned (file : Bytes)
  | opened (file content : Bytes)
  | wrote (file : Bytes)
  | done
  deriving DecidableEq

/-- The files and the compressors, with the contents that were rotated, the last one first. -/
structure State where
  files : Files
  gzips : List Gzip := []
  rotated : List Bytes := []

inductive Event
  /-- The live file is written. -/
  | write (content : Bytes)
  | rotate (compress : Bool)
  | gzipOpen (i : Nat)
  | gzipWrite (i : Nat)
  | gzipRemove (i : Nat)
  deriving DecidableEq

/-- One event on a path that is rotated with one `keep`. A compressor that finds no file ends. -/
def step (path : Bytes) (keep : Int) (deflate : Bytes → Bytes) (s : State) : Event → Option State
  | .write content => some { s with files := s.files.write path content }
  | .rotate compress =>
    match fcRotateFile path keep s.files with
    | (false, files) => some { s with files := files }
    | (true, files) =>
      some
        { files := files
          gzips := if compress then s.gzips ++ [Gzip.spawned (slotName path 1)] else s.gzips
          rotated := (s.files path).toList ++ s.rotated }
  | .gzipOpen i =>
    match s.gzips[i]? with
    | some (.spawned file) =>
      some { s with gzips := s.gzips.set i (match s.files file with | none => .done | some c => .opened file c) }
    | _ => none
  | .gzipWrite i =>
    match s.gzips[i]? with
    | some (.opened file content) =>
      some { s with files := s.files.write (file ++ lit ".gz") (deflate content), gzips := s.gzips.set i (.wrote file) }
    | _ => none
  | .gzipRemove i =>
    match s.gzips[i]? with
    | some (.wrote file) => some { s with files := s.files.unlink file, gzips := s.gzips.set i .done }
    | _ => none

end Floofclaw.Source.LogRotation
