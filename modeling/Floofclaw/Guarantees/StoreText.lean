import Floofclaw.Source.StoreFile
import Floofclaw.Guarantees.TaskStoreText

/-!
# A store file reads back as it was written

Whatever the records are: a text that `write_store` managed to print is one
object around the array of its row texts, and the entries the loader finds are
these rows.
-/

set_option autoImplicit false

namespace Floofclaw.Guarantees.StoreText
open Floofclaw.Lib Floofclaw.Source.Json Floofclaw.Source.TaskState Floofclaw.Source.StoreFile
open Floofclaw.Guarantees.TaskStoreText

theorem rtAppendText_eq_some {cap : Nat} {out text r : Bytes} :
    rtAppendText cap out text = some r ↔ r = out ++ text ∧ r.length < cap := by
  unfold rtAppendText
  split
  · rename_i hlong
    constructor
    · intro h
      cases h
    · rintro ⟨rfl, hlen⟩
      rw [List.length_append] at hlen
      omega
  · rename_i hfits
    rw [Option.some.injEq]
    constructor
    · rintro rfl
      exact ⟨rfl, by rw [List.length_append]; omega⟩
    · exact fun h => h.1.symm

theorem appendPieces_eq {cap : Nat} {pieces : List Bytes} {out r : Bytes} (h : appendPieces cap out pieces = some r) :
    r = out ++ pieces.flatten := by
  induction pieces generalizing out with
  | nil => simpa [appendPieces] using h.symm
  | cons piece pieces ih =>
    obtain ⟨out1, hout1, hrest⟩ := Option.bind_eq_some_iff.mp h
    rw [ih hrest, (rtAppendText_eq_some.mp hout1).1, List.flatten_cons, List.append_assoc]

section Rows
variable {α : Type} {cap : Nat} {row : Bool → α → Option (List Bytes)} {text : α → Bytes}

/-- `row` prints the text of a record behind its separator. -/
def Prints (row : Bool → α → Option (List Bytes)) (text : α → Bytes) (x : α) : Prop :=
  ∀ first pieces, row first x = some pieces → pieces.flatten = separator first ++ text x

theorem writeRows_eq {xs : List α} (h : ∀ x ∈ xs, Prints row text x) {first : Bool} {out r : Bytes}
    (hw : writeRows cap row first out xs = some r) :
    r = out ++ if first then elemsText (xs.map text) else xs.flatMap fun x => ch ',' :: text x := by
  induction xs generalizing first out with
  | nil =>
    cases hw
    cases first <;> simp [elemsText]
  | cons x xs ih =>
    rw [writeRows] at hw
    split at hw
    · cases hw
    rename_i pieces hpieces
    obtain ⟨out1, hout1, hrest⟩ := Option.bind_eq_some_iff.mp hw
    have hx := h x List.mem_cons_self first pieces hpieces
    rw [ih (fun y hy => h y (List.mem_cons_of_mem _ hy)) hrest, appendPieces_eq hout1, hx]
    cases first
    · simp [separator, lit]
    · simp [separator, elemsText_cons, List.flatMap_map]

/-- The text of a store file. -/
def fileText (key : Bytes) (rows : List Bytes) : Bytes := objText [(key, arrText rows)] ++ lit "\n"

theorem writeStore_eq {key : Bytes} {xs : List α} (h : ∀ x ∈ xs, Prints row text x) {r : Bytes}
    (hw : writeStore cap (ch '{' :: (quoted key ++ lit ":[")) row xs = some r) :
    r = fileText key (xs.map text) ∧ r.length < cap := by
  obtain ⟨out, hout, hw⟩ := Option.bind_eq_some_iff.mp hw
  obtain ⟨out1, hout1, hlast⟩ := Option.bind_eq_some_iff.mp hw
  obtain ⟨hr, hlen⟩ := rtAppendText_eq_some.mp hlast
  refine ⟨?_, hlen⟩
  rw [hr, writeRows_eq h hout1, (rtAppendText_eq_some.mp hout).1, if_pos rfl]
  simp [fileText, objText, membersText, arrText, lit]

theorem fileText_array {key : Bytes} (hkey : plainKey key = true) {rows : List Bytes} (h : ∀ x ∈ rows, CleanValue x) :
    storeArray key (some (fileText key rows)) = some (arrText rows) := by
  have hms : WrittenMembers [(key, arrText rows)] := .cons hkey (.arrText h) .nil
  have htop : jsonRefTopObject (fileText key rows) = some (objText [(key, arrText rows)]) :=
    jsonRefTopObject_line hms
  simp only [storeArray, Option.bind_some, htop, jsonRefObjectGetArray, hms.get, assoc, if_pos]
  rfl

theorem fileText_rows {key : Bytes} (hkey : plainKey key = true) {rows : List Bytes} (h : ∀ x ∈ rows, CleanValue x) :
    storeRows key (some (fileText key rows)) = rows := by
  rw [storeRows, fileText_array hkey h]
  exact arrayEntries_eq (arrText_reads fun x hx => (h x hx).value)

/-- Records whose texts load as themselves are what a loader finds in the file they were printed to. -/
theorem loaded_rows {key : Bytes} (hkey : plainKey key = true) {load : Bytes → Option α} {xs : List α}
    (h : ∀ x ∈ xs, Prints row text x ∧ CleanValue (text x) ∧ load (text x) = some x) {r : Bytes}
    (hw : writeStore cap (ch '{' :: (quoted key ++ lit ":[")) row xs = some r) :
    (storeRows key (some r)).filterMap load = xs := by
  rw [(writeStore_eq (fun x hx => (h x hx).1) hw).1, fileText_rows hkey]
  · clear hw
    induction xs with
    | nil => rfl
    | cons x xs ih =>
      rw [List.map_cons, List.filterMap_cons, (h x List.mem_cons_self).2.2]
      rw [ih fun y hy => h y (List.mem_cons_of_mem _ hy)]
  · intro t ht
    obtain ⟨x, hx, rfl⟩ := List.mem_map.mp ht
    exact (h x hx).2.1

end Rows

/-- A file below the cap is read whole. -/
theorem fsReadText_some {io : FileIo} (hio : io.readable = true) {text : Bytes}
    (h : text.length ≤ fsReadTextDefaultCap) : fsReadText io (some text) = some text := by
  rw [fsReadText, if_pos hio, Option.filter_some, if_pos (by simpa using h)]

end Floofclaw.Guarantees.StoreText
