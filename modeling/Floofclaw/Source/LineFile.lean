import Floofclaw.Source.StoreFile

/-!
# Files of lines

Model of `fs_truncate_incomplete_line`, `read_cap` and `fs_read_tail` of
`support/fsutil.c`. The file is its octets. Failing and interrupted system calls
are left out.
-/

set_option autoImplicit false

namespace Floofclaw.Source.LineFile
open Floofclaw.Lib
open Floofclaw.Source.StoreFile (fsReadTextDefaultCap)

/-! ## The torn tail -/

/-- `sizeof(block)`. -/
def blockSize : Nat := 4096

/-- The inner loop: the position behind the last newline of the first `i` octets. -/
def scanBlock (block : Bytes) : Nat → Option Nat
  | 0 => none
  | i + 1 => if block[i]? = some (ch '\n') then some (i + 1) else scanBlock block i

/-- The outer loop: blocks are read from `cursor` towards the front, and a newline ends it. -/
def scanBack (file : Bytes) (cursor : Nat) : Nat :=
  if _h : cursor > 0 then
    let want := if cursor > blockSize then blockSize else cursor
    let start := cursor - want
    match scanBlock ((file.drop start).take want) want with
    | some i => start + i
    | none => scanBack file start
  else 0
termination_by cursor
decreasing_by
  rw [blockSize]
  split <;> omega

/-- An empty file and one whose last octet is a newline stay as they are. -/
def fsTruncateIncompleteLine (file : Bytes) : Bytes :=
  if file.length = 0 then file
  else if file[file.length - 1]? = some (ch '\n') then file
  else file.take (scanBack file file.length)

/-! ## The last records -/

def readCap (requested : Nat) : Nat :=
  if requested = 0 ∨ requested > fsReadTextDefaultCap then fsReadTextDefaultCap else requested

/-- `fs_read_tail` under a bound it keeps: a first record cut by the bound is dropped. -/
def fsReadTailCapped (maxBytes : Nat) (file : Bytes) : Bytes :=
  let start := file.length - maxBytes
  let buffer := file.drop start
  if start = 0 ∨ file[start - 1]? = some (ch '\n') then buffer else (buffer.dropWhile (· != ch '\n')).drop 1

def fsReadTail (file : Bytes) (maxBytes : Nat) : Bytes := fsReadTailCapped (readCap maxBytes) file

end Floofclaw.Source.LineFile
