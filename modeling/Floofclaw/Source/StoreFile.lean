import Floofclaw.Source.TaskState

/-!
# Store files

What the loaders and writers of the operation and affair stores share: a file
is one object around one array of rows, read whole through `fs_read_text` and
printed row by row into a fixed buffer that replaces the file.
-/

set_option autoImplicit false

namespace Floofclaw.Source.StoreFile
open Floofclaw.Lib Floofclaw.Source.Json Floofclaw.Source.TaskState

def fsReadTextDefaultCap : Nat := 64 * 1024 * 1024

/-- Whether the reads of a file succeed, and whether its replacement is written. -/
structure FileIo where
  readable : Bool := true
  writable : Bool := true
  deriving DecidableEq

/-- `fs_read_text`: nothing for an absent file, a failed read or a file above the cap. -/
def fsReadText (io : FileIo) (file : Option Bytes) : Option Bytes :=
  if io.readable then file.filter fun text => text.length ≤ fsReadTextDefaultCap else none

/-- The array a store file holds under its key. -/
def storeArray (key : Bytes) (text : Option Bytes) : Option JsonRef :=
  text.bind fun text => (jsonRefTopObject text).bind fun root => jsonRefObjectGetArray root key

/-- The entries of that array; a text without one has none. -/
def storeRows (key : Bytes) (text : Option Bytes) : List JsonRef :=
  match storeArray key text with
  | none => []
  | some arr => arrayEntries arr

/-- `rt_append_text` for one piece after the other. -/
def appendPieces (cap : Nat) : Bytes → List Bytes → Option Bytes
  | out, [] => some out
  | out, piece :: pieces => (rtAppendText cap out piece).bind fun out => appendPieces cap out pieces

variable {α : Type}

/-- The loop of `write_store`: `row` prints one record, with a comma unless it is the first. -/
def writeRows (cap : Nat) (row : Bool → α → Option (List Bytes)) : Bool → Bytes → List α → Option Bytes
  | _, out, [] => some out
  | first, out, x :: xs =>
    match row first x with
    | none => none
    | some pieces => (appendPieces cap out pieces).bind fun out => writeRows cap row false out xs

/-- `write_store`: the text that goes to disk. -/
def writeStore (cap : Nat) (head : Bytes) (row : Bool → α → Option (List Bytes)) (xs : List α) : Option Bytes :=
  (rtAppendText cap [] head).bind fun out =>
    (writeRows cap row true out xs).bind fun out => rtAppendText cap out (lit "]\x7d\n")

def separator (first : Bool) : Bytes := if first then [] else lit ","

end Floofclaw.Source.StoreFile
