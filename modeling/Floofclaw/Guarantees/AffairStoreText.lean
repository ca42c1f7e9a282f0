import Floofclaw.Source.AffairState
import Floofclaw.Guarantees.OperationRecords

/-!
# The affair store reads back as it was written

Every affair that was loaded is within the bounds of its record, and an affair
within those bounds is read back from the row it was printed to.
-/

set_option autoImplicit false

namespace Floofclaw.Guarantees.AffairStoreText
open Floofclaw.Lib Floofclaw.Source.Json Floofclaw.Source.AffairState
open Floofclaw.Source.StoreFile hiding writeStore
open Floofclaw.Guarantees.TaskStoreText (InLong mirror_eq_some elemsText_cons arrayEntries_eq)
open Floofclaw.Guarantees.StoreText
open Floofclaw.Guarantees.OperationRecords (getString_printed getLong_printed stringField_printed zero_inLong getLong_inLong)

/-! ## Bounds -/

structure NoteOk (n : AffairNote) : Prop where
  ts : TextField rtSmall n.ts
  text : TextField rtMed n.text
  named : n.text ≠ []

structure CounterOk (c : AffairCounter) : Prop where
  name : TextField counterNameMax c.name
  named : c.name ≠ []
  value : InLong c.value

/-- An affair within the bounds of its record. -/
structure Printable (a : AffairItem) : Prop where
  affairId : TextField rtSmall a.affairId
  contextId : TextField rtMed a.contextId
  manage : TextField rtMed a.manage
  managed : a.manage ≠ []
  nextReviewAtMs : InLong a.nextReviewAtMs
  createdMs : InLong a.createdMs
  updatedMs : InLong a.updatedMs
  taskIds : ∀ t ∈ a.taskIds, TextField rtSmall t ∧ t ≠ []
  taskIdRoom : a.taskIds.length ≤ affairMaxTaskIds
  notes : ∀ n ∈ a.notes, NoteOk n
  noteRoom : a.notes.length ≤ affairMaxNotes
  counters : ∀ c ∈ a.counters, CounterOk c
  counterRoom : a.counters.length ≤ affairMaxCounters
  counterNames : (a.counters.map (·.name)).Nodup

theorem counterFind_none {cs : List AffairCounter} {name : Bytes} (h : counterFind cs name = none) :
    name ∉ cs.map (·.name) := by
  intro hmem
  obtain ⟨c, hc, rfl⟩ := List.mem_map.mp hmem
  simpa using List.find?_eq_none.mp h c hc

theorem loadCounter_ok {cs : List AffairCounter} {c : JsonRef} (hcs : ∀ c ∈ cs, CounterOk c)
    (hroom : cs.length ≤ affairMaxCounters) (hnodup : (cs.map (·.name)).Nodup) :
    (∀ x ∈ loadCounter cs c, CounterOk x) ∧ (loadCounter cs c).length ≤ affairMaxCounters ∧
      ((loadCounter cs c).map (·.name)).Nodup := by
  unfold loadCounter
  split
  · exact ⟨hcs, hroom, hnodup⟩
  rename_i hfull
  split
  · exact ⟨hcs, hroom, hnodup⟩
  · exact ⟨hcs, hroom, hnodup⟩
  · exact ⟨hcs, hroom, hnodup⟩
  · rename_i name value hne hname hvalue
    split
    · exact ⟨hcs, hroom, hnodup⟩
    · rename_i hnew
      have hval := getLong_inLong c (lit "value")
      rw [hvalue] at hval
      have hnone : counterFind cs name = none := by simpa using hnew
      refine ⟨?_, ?_, ?_⟩
      · intro x hx
        rcases List.mem_append.mp hx with hx | hx
        · exact hcs x hx
        · obtain rfl := List.mem_singleton.mp hx
          exact ⟨getString_text hname, fun hnil => hne (hnil ▸ rfl), hval⟩
      · rw [List.length_append, List.length_singleton]
        omega
      · rw [List.map_append, List.map_singleton]
        refine List.nodup_append.mpr ⟨hnodup, by simp, ?_⟩
        intro x hx y hy hxy
        obtain rfl := List.mem_singleton.mp hy
        exact counterFind_none hnone (hxy ▸ hx)

theorem loadCounters_ok (entries : List JsonRef) {cs : List AffairCounter} (hcs : ∀ c ∈ cs, CounterOk c)
    (hroom : cs.length ≤ affairMaxCounters) (hnodup : (cs.map (·.name)).Nodup) :
    (∀ x ∈ entries.foldl loadCounter cs, CounterOk x) ∧ (entries.foldl loadCounter cs).length ≤ affairMaxCounters ∧
      ((entries.foldl loadCounter cs).map (·.name)).Nodup := by
  induction entries generalizing cs with
  | nil => exact ⟨hcs, hroom, hnodup⟩
  | cons c entries ih =>
    obtain ⟨h1, h2, h3⟩ := loadCounter_ok (c := c) hcs hroom hnodup
    exact ih h1 h2 h3

theorem loadNote_ok {n : JsonRef} {note : AffairNote} (h : loadNote n = some note) : NoteOk note := by
  unfold loadNote at h
  split at h
  · cases h
  split at h
  · cases h
  · cases h
  · rename_i text hne htext
    cases h
    exact ⟨stringField_text (textField_nil (by decide)), getString_text htext, fun hnil => hne (hnil ▸ rfl)⟩

theorem loadTaskId_ok {t : JsonRef} {taskId : Bytes} (h : loadTaskId t = some taskId) :
    TextField rtSmall taskId ∧ taskId ≠ [] := by
  unfold loadTaskId at h
  split at h
  · cases h
  · obtain ⟨hcopy, hne⟩ := Option.filter_eq_some_iff.mp h
    exact ⟨⟨jsonRefStringCopy_nulFree hcopy, jsonRefStringCopy_length hcopy⟩, by simpa using hne⟩

/-- Whatever the file holds, a loaded affair is within its bounds. -/
theorem loadItem_printable {item : JsonRef} {a : AffairItem} (h : loadItem item = some a) : Printable a := by
  unfold loadItem at h
  split at h
  · cases h
  split at h
  · rename_i id ctx manage hid hctx hmanage
    split at h
    · cases h
    rename_i hne
    cases h
    obtain ⟨hc1, hc2, hc3⟩ := loadCounters_ok (memberEntries item (lit "counters"))
      (show ∀ c ∈ ([] : List AffairCounter), CounterOk c by simp) (by simp) (by simp)
    exact
      { affairId := getString_text hid, contextId := getString_text hctx, manage := getString_text hmanage, managed := hne
        nextReviewAtMs := getLong_inLong _ _, createdMs := getLong_inLong _ _, updatedMs := getLong_inLong _ _
        taskIds := fun t ht => by
          obtain ⟨x, -, hx⟩ := List.mem_filterMap.mp (List.mem_of_mem_take ht)
          exact loadTaskId_ok hx
        taskIdRoom := List.length_take_le _ _
        notes := fun n hn => by
          obtain ⟨x, -, hx⟩ := List.mem_filterMap.mp (List.mem_of_mem_take hn)
          exact loadNote_ok hx
        noteRoom := List.length_take_le _ _
        counters := hc1, counterRoom := hc2, counterNames := hc3 }
  · cases h

theorem loadStore_printable (text : Option Bytes) :
    (∀ a ∈ loadStore text, Printable a) ∧ (loadStore text).length ≤ affairMaxItems := by
  refine ⟨fun a ha => ?_, List.length_take_le _ _⟩
  obtain ⟨item, -, hitem⟩ := List.mem_filterMap.mp (List.mem_of_mem_take ha)
  exact loadItem_printable hitem

/-! ## Rows -/

def shownNote (n : AffairNote) : Bytes := objText [(lit "ts", quoted (escaped n.ts)), (lit "text", quoted (escaped n.text))]

def shownCounter (c : AffairCounter) : Bytes :=
  objText [(lit "name", quoted (escaped c.name)), (lit "value", decInt c.value)]

def shownTaskId (t : Bytes) : Bytes := quoted (escaped t)

/-- The members of a row whose texts all fit. -/
def members (a : AffairItem) : List (Bytes × Bytes) :=
  [(lit "affair_id", quoted (escaped a.affairId)), (lit "context_id", quoted (escaped a.contextId)),
    (lit "status", quoted (escaped (statusText a.status))), (lit "manage", quoted (escaped a.manage)),
    (lit "next_review_at_ms", decInt a.nextReviewAtMs), (lit "task_ids", arrText (a.taskIds.map shownTaskId)),
    (lit "notes", arrText (a.notes.map shownNote)), (lit "counters", arrText (a.counters.map shownCounter)),
    (lit "created_ms", decInt a.createdMs), (lit "updated_ms", decInt a.updatedMs)]

def rowText (a : AffairItem) : Bytes := objText (members a)

section Arrays
variable {β : Type} {cap : Nat} {text : β → Option Bytes} {shown : β → Bytes}

theorem arrayItems_flatten {xs : List β} (h : ∀ x ∈ xs, ∀ e, text x = some e → e = shown x) {first : Bool}
    {ps : List Bytes} (hps : arrayItems cap text first xs = some ps) :
    ps.flatten = if first then elemsText (xs.map shown) else xs.flatMap fun x => ch ',' :: shown x := by
  induction xs generalizing first ps with
  | nil =>
    cases hps
    cases first <;> rfl
  | cons x xs ih =>
    simp only [arrayItems, Option.bind_eq_bind, Option.bind_eq_some_iff, Option.pure_def, Option.some.injEq] at hps
    obtain ⟨e, he, -, -, rest, hrest, rfl⟩ := hps
    have hshown := h x List.mem_cons_self e he
    have htail := ih (fun y hy => h y (List.mem_cons_of_mem _ hy)) hrest
    rw [List.flatten_cons, htail, hshown]
    cases first
    · simp [separator, lit]
    · simp [separator, elemsText_cons, List.flatMap_map]

theorem arrayPieces_flatten {xs : List β} (h : ∀ x ∈ xs, ∀ e, text x = some e → e = shown x) {ps : List Bytes}
    (hps : arrayPieces cap text xs = some ps) : ps.flatten = arrText (xs.map shown) := by
  obtain ⟨items, hitems, rfl⟩ := Option.map_eq_some_iff.mp hps
  rw [List.flatten_cons, List.flatten_append, arrayItems_flatten h hitems]
  simp [arrText, lit]

end Arrays

theorem statusText_nulFree (s : AffairStatus) : NulFree (statusText s) := by
  refine .of_all ?_
  cases s <;> decide

/-- The pieces of a row are its text. -/
theorem row_prints {a : AffairItem} (ha : Printable a) : Prints row rowText a := by
  intro first pieces h
  unfold row at h
  obtain ⟨eid, hid, h⟩ := Option.bind_eq_some_iff.mp h
  obtain ⟨ectx, hctx, h⟩ := Option.bind_eq_some_iff.mp h
  obtain ⟨emanage, hmanage, h⟩ := Option.bind_eq_some_iff.mp h
  obtain ⟨estatus, hstatus, h⟩ := Option.bind_eq_some_iff.mp h
  obtain ⟨_, -, h⟩ := Option.bind_eq_some_iff.mp h
  obtain ⟨taskIds, htaskIds, h⟩ := Option.bind_eq_some_iff.mp h
  obtain ⟨notes, hnotes, h⟩ := Option.bind_eq_some_iff.mp h
  obtain ⟨counters, hcounters, h⟩ := Option.bind_eq_some_iff.mp h
  obtain ⟨_, -, h⟩ := Option.bind_eq_some_iff.mp h
  cases h
  have htask : ∀ t ∈ a.taskIds, ∀ e, taskIdText t = some e → e = shownTaskId t := by
    intro t ht e he
    obtain ⟨x, hx, rfl⟩ := Option.map_eq_some_iff.mp he
    rw [shownTaskId, mirror_eq_some (ha.taskIds t ht).1.nulFree hx]
  have hnote : ∀ n ∈ a.notes, ∀ e, noteText n = some e → e = shownNote n := by
    intro n hn e he
    simp only [noteText, Option.bind_eq_bind, Option.bind_eq_some_iff, Option.pure_def, Option.some.injEq] at he
    obtain ⟨ets, hts, etext, htext, rfl⟩ := he
    rw [shownNote, mirror_eq_some (ha.notes n hn).ts.nulFree hts, mirror_eq_some (ha.notes n hn).text.nulFree htext]
  have hcounter : ∀ c ∈ a.counters, ∀ e, counterText c = some e → e = shownCounter c := by
    intro c hc e he
    obtain ⟨x, hx, rfl⟩ := Option.map_eq_some_iff.mp he
    rw [shownCounter, mirror_eq_some (ha.counters c hc).name.nulFree hx]
  rw [mirror_eq_some ha.affairId.nulFree hid, mirror_eq_some ha.contextId.nulFree hctx,
    mirror_eq_some ha.manage.nulFree hmanage, mirror_eq_some (statusText_nulFree a.status) hstatus]
  simp only [List.flatten_append, List.flatten_cons, List.flatten_nil, arrayPieces_flatten htask htaskIds,
    arrayPieces_flatten hnote hnotes, arrayPieces_flatten hcounter hcounters]
  simp [rowText, members, objText, membersText, quoted, lit]

theorem shownNote_written (n : AffairNote) :
    WrittenMembers [(lit "ts", quoted (escaped n.ts)), (lit "text", quoted (escaped n.text))] :=
  .key (by decide) (.text _) <| .key (by decide) (.text _) .nil

theorem shownCounter_written (c : AffairCounter) :
    WrittenMembers [(lit "name", quoted (escaped c.name)), (lit "value", decInt c.value)] :=
  .key (by decide) (.text _) <| .key (by decide) (.long _) .nil

theorem mapped_clean {β : Type} {shown : β → Bytes} (h : ∀ x, CleanValue (shown x)) (xs : List β) :
    ∀ y ∈ xs.map shown, CleanValue y := by
  intro y hy
  obtain ⟨x, -, rfl⟩ := List.mem_map.mp hy
  exact h x

theorem members_written (a : AffairItem) : WrittenMembers (members a) :=
  .key (by decide) (.text _) <| .key (by decide) (.text _) <| .key (by decide) (.text _) <|
    .key (by decide) (.text _) <| .key (by decide) (.long _) <|
    .key (by decide) (.arrText (mapped_clean (fun _ => .text _) _)) <|
    .key (by decide) (.arrText (mapped_clean (fun n => .objText (shownNote_written n)) _)) <|
    .key (by decide) (.arrText (mapped_clean (fun c => .objText (shownCounter_written c)) _)) <|
    .key (by decide) (.long _) <| .key (by decide) (.long _) .nil

theorem row_get (a : AffairItem) (key : Bytes) : jsonRefObjectGet (rowText a) key = assoc key (members a) :=
  (members_written a).get key

/-- The entries of an array member of a row. -/
theorem row_entries {β : Type} {a : AffairItem} {key : Bytes} (shown : β → Bytes) (xs : List β)
    (hclean : ∀ x, CleanValue (shown x)) (hassoc : assoc key (members a) = some (arrText (xs.map shown))) :
    memberEntries (rowText a) key = xs.map shown := by
  have hread : ArrText (arrText (xs.map shown)) (xs.map shown) :=
    arrText_reads fun y hy => (mapped_clean hclean xs y hy).value
  have harr : jsonRefObjectGetArray (rowText a) key = some (arrText (xs.map shown)) := by
    rw [jsonRefObjectGetArray, row_get, hassoc, Option.filter_some, if_pos (by simpa using ArrText.inferType hread)]
  rw [memberEntries, harr]
  exact arrayEntries_eq hread

theorem filterMap_shown {β : Type} {load : Bytes → Option β} {shown : β → Bytes} {xs : List β}
    (h : ∀ x ∈ xs, load (shown x) = some x) : (xs.map shown).filterMap load = xs := by
  induction xs with
  | nil => rfl
  | cons x xs ih =>
    rw [List.map_cons, List.filterMap_cons, h x List.mem_cons_self]
    rw [ih fun y hy => h y (List.mem_cons_of_mem _ hy)]

theorem loadTaskId_shown {t : Bytes} (ht : TextField rtSmall t ∧ t ≠ []) : loadTaskId (shownTaskId t) = some t := by
  have hstring : jsonRefInferType (shownTaskId t) = .string := rfl
  rw [loadTaskId, if_neg (by simpa using hstring), shownTaskId, ht.1.copy, Option.filter_some, if_pos (by simpa using ht.2)]

theorem loadNote_shown {n : AffairNote} (hn : NoteOk n) : loadNote (shownNote n) = some n := by
  have hget := (shownNote_written n).get
  have hobj : jsonRefInferType (shownNote n) = .object := ObjText.inferType (shownNote_written n).objText
  have htext : jsonRefObjectGetString (shownNote n) (lit "text") rtMed = some n.text := getString_printed hn.text (hget _)
  have hts : stringField (shownNote n) (lit "ts") rtSmall [] = n.ts := stringField_printed hn.ts (hget _) []
  rw [loadNote, if_neg (by simpa using hobj), htext, hts]
  split
  · rename_i h
    cases h
  · rename_i h
    exact absurd (Option.some.inj h) hn.named
  · rename_i h
    cases h
    rfl

theorem loadCounter_shown {cs : List AffairCounter} {c : AffairCounter} (hc : CounterOk c)
    (hroom : cs.length < affairMaxCounters) (hnew : c.name ∉ cs.map (·.name)) :
    loadCounter cs (shownCounter c) = cs ++ [c] := by
  have hget := (shownCounter_written c).get
  have hobj : jsonRefInferType (shownCounter c) = .object := ObjText.inferType (shownCounter_written c).objText
  have hname : jsonRefObjectGetString (shownCounter c) (lit "name") counterNameMax = some c.name :=
    getString_printed hc.name (hget _)
  have hvalue : jsonRefObjectGetLong (shownCounter c) (lit "value") 0 = (c.value, true) :=
    getLong_printed hc.value (hget _) 0
  have hnone : ¬ (counterFind cs c.name).isSome = true := by
    intro hsome
    obtain ⟨d, hd⟩ := Option.isSome_iff_exists.mp hsome
    have heq : d.name = c.name := by simpa using List.find?_some hd
    exact hnew (heq ▸ List.mem_map_of_mem (List.mem_of_find?_eq_some hd))
  unfold loadCounter
  rw [if_neg (by simp only [hobj, ne_eq, not_true, or_false]; omega), hname, hvalue]
  split
  · rename_i h
    cases h
  · rename_i h
    exact absurd (Option.some.inj h) hc.named
  · rename_i h
    cases h
  · rename_i h h'
    cases h
    cases h'
    rw [if_neg hnone]

theorem loadCounters_shown {cs rest : List AffairCounter} (hok : ∀ c ∈ cs ++ rest, CounterOk c)
    (hroom : (cs ++ rest).length ≤ affairMaxCounters) (hnodup : ((cs ++ rest).map (·.name)).Nodup) :
    (rest.map shownCounter).foldl loadCounter cs = cs ++ rest := by
  induction rest generalizing cs with
  | nil => simp
  | cons c rest ih =>
    have hnew : c.name ∉ cs.map (·.name) := by
      rw [List.map_append, List.map_cons, List.nodup_append] at hnodup
      exact fun hmem => hnodup.2.2 c.name hmem c.name List.mem_cons_self rfl
    have hlen : cs.length < affairMaxCounters := by
      rw [List.length_append, List.length_cons] at hroom
      omega
    rw [List.map_cons, List.foldl_cons, loadCounter_shown (hok c (by simp)) hlen hnew]
    have hsplit : cs ++ c :: rest = (cs ++ [c]) ++ rest := by simp
    rw [hsplit] at hok hroom hnodup ⊢
    exact ih hok hroom hnodup

theorem row_status (a : AffairItem) :
    (affairStatusCanonical (stringField (rowText a) (lit "status") rtSmall [])).getD .active = a.status := by
  have htext : TextField rtSmall (statusText a.status) := ⟨statusText_nulFree _, by cases a.status <;> decide⟩
  rw [stringField_printed htext (row_get a _)]
  cases a.status <;> decide

/-- A printed row loads as the affair it was printed from. -/
theorem loadItem_rowText {a : AffairItem} (ha : Printable a) : loadItem (rowText a) = some a := by
  have hobj : jsonRefInferType (rowText a) = .object := ObjText.inferType (members_written a).objText
  have hid : jsonRefObjectGetString (rowText a) (lit "affair_id") rtSmall = some a.affairId :=
    getString_printed ha.affairId (row_get a _)
  have hctx : jsonRefObjectGetString (rowText a) (lit "context_id") rtMed = some a.contextId :=
    getString_printed ha.contextId (row_get a _)
  have hmanage : jsonRefObjectGetString (rowText a) (lit "manage") rtMed = some a.manage :=
    getString_printed ha.manage (row_get a _)
  have htasks : (memberEntries (rowText a) (lit "task_ids")).filterMap loadTaskId = a.taskIds := by
    rw [row_entries shownTaskId a.taskIds (fun _ => CleanValue.text _) rfl]
    exact filterMap_shown fun t ht => loadTaskId_shown (ha.taskIds t ht)
  have hnotes : (memberEntries (rowText a) (lit "notes")).filterMap loadNote = a.notes := by
    rw [row_entries shownNote a.notes (fun n => .objText (shownNote_written n)) rfl]
    exact filterMap_shown fun n hn => loadNote_shown (ha.notes n hn)
  have hcounters : (memberEntries (rowText a) (lit "counters")).foldl loadCounter [] = a.counters := by
    rw [row_entries shownCounter a.counters (fun c => .objText (shownCounter_written c)) rfl]
    exact loadCounters_shown (show ∀ c ∈ [] ++ a.counters, CounterOk c from ha.counters) ha.counterRoom ha.counterNames
  unfold loadItem
  rw [if_neg (by simpa using hobj), hid, hctx, hmanage]
  dsimp only
  rw [if_neg ha.managed, row_status, htasks, hnotes, hcounters, List.take_of_length_le ha.taskIdRoom,
    List.take_of_length_le ha.noteRoom, getLong_printed ha.nextReviewAtMs (row_get a _),
    getLong_printed ha.createdMs (row_get a _), getLong_printed ha.updatedMs (row_get a _)]

/-- Affairs within their bounds that were written are what the next call loads. -/
theorem loadStore_writeStore {st : AffairStore} (h : ∀ a ∈ st, Printable a) (hroom : st.length ≤ affairMaxItems)
    {text : Bytes} (hw : writeStore st = some text) : loadStore (some text) = st ∧ text.length < rtXl * 4 := by
  have hrows : ∀ a ∈ st, Prints row rowText a ∧ CleanValue (rowText a) ∧ loadItem (rowText a) = some a :=
    fun a ha => ⟨row_prints (h a ha), .objText (members_written a), loadItem_rowText (h a ha)⟩
  have hkey : plainKey (lit "affairs") = true := plainKey_lit (by decide)
  have hhead : lit "\x7b\"affairs\":[" = ch '{' :: (quoted (lit "affairs") ++ lit ":[") := by (repeat rw [lit_ofList]); decide
  rw [writeStore, hhead] at hw
  refine ⟨?_, (writeStore_eq (fun a ha => (hrows a ha).1) hw).2⟩
  rw [loadStore, loaded_rows hkey hrows hw, List.take_of_length_le hroom]

end Floofclaw.Guarantees.AffairStoreText
