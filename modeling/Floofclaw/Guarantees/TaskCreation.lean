import Mathlib.Data.List.Induction
import Floofclaw.Guarantees.TaskRoundTrip

/-!
# Making a task

`task_created` builds its row in place: in a fresh slot, or, on a full store, in
the slot the last row stood in before the oldest terminal row was taken out.
What a payload does not set is what stood there. The rows then have to fit the
64 KiB text of the store, which reclaims nothing.
-/

set_option autoImplicit false

namespace Floofclaw.Guarantees.TaskCreation
open Floofclaw.Lib Floofclaw.Source.Json Floofclaw.Source.TaskState Floofclaw.Guarantees.TaskStoreText
open Floofclaw.Guarantees.TaskRoundTrip

/-- What stands in the slot of the next row. -/
def creationSlot (rows : List TaskItem) : TaskItem :=
  if taskMaxItems ≤ rows.length then rows.getLastD blankItem else blankItem

/-- The rows a creation keeps; `none` when the store is full of unfinished tasks. -/
def keptRows (rows : List TaskItem) : Option (List TaskItem) :=
  if taskMaxItems ≤ rows.length then taskEvictOldestTerminal rows else some rows

theorem reduceCreated_eq (rows : List TaskItem) (payload : JsonRef) : reduceCreated rows payload =
    (keptRows rows).bind fun kept => (createItem (creationSlot rows) kept payload).map fun t => kept ++ [t] := by
  rw [reduceCreated, keptRows, creationSlot]
  split
  · cases taskEvictOldestTerminal rows <;> rfl
  · rfl

theorem applyTaskEvent_created {rows : List TaskItem} {payloadJson : Bytes} {payload : JsonRef}
    (hpayload : jsonRefTopObject payloadJson = some payload) : applyTaskEvent rows (lit "task_created") payloadJson =
      ((keptRows rows).bind fun kept => (createItem (creationSlot rows) kept payload).map fun t => kept ++ [t]).filter
        fun rows => (writeStore rows).isSome := by
  have htype : rtTaskIsEventType (lit "task_created") = true := by rw [lit_ofList]; decide
  simp only [applyTaskEvent, htype, if_true, hpayload, reduceTasks, reduceCreated_eq]

/-! ## Room for the row -/

/-- The octets of a row's text. -/
def rowLength (t : TaskItem) : Nat :=
  match escapeItem t with
  | none => 0
  | some e => (itemText t e).length

/-- The octets `write_store` puts for the rows, with the commas between them. -/
def itemsLength : Bool → List TaskItem → Nat
  | _, [] => 0
  | first, t :: rows => (if first then 0 else 1) + rowLength t + itemsLength false rows

/-- The octets of the store's text. -/
def storeLength (rows : List TaskItem) : Nat := 10 + itemsLength true rows + 3

/-- Every text of the row fits its mirror. -/
def Escapable (t : TaskItem) : Prop := (escapeItem t).isSome = true

instance (t : TaskItem) : Decidable (Escapable t) := inferInstanceAs (Decidable (_ = true))

/-- The text appended for a row. -/
theorem item_length {t : TaskItem} {e : EscapedItem} (he : escapeItem t = some e) (first : Bool) :
    ((if first then [] else lit ",") ++ itemText t e).length = (if first then 0 else 1) + rowLength t := by
  rw [rowLength, he]
  cases first
  · simp [lit]
    omega
  · simp

theorem writeItems_length {first : Bool} {out out' : Bytes} {rows : List TaskItem}
    (h : writeItems first out rows = some out') : out'.length = out.length + itemsLength first rows := by
  induction rows generalizing first out with
  | nil =>
    rw [writeItems, Option.some.injEq] at h
    simp [itemsLength, h]
  | cons t rows ih =>
    rw [writeItems] at h
    cases he : escapeItem t with
    | none =>
      rw [he] at h
      cases h
    | some e =>
      rw [he] at h
      have hitem := item_length he first
      dsimp only at h
      generalize (if first then [] else lit ",") ++ itemText t e = item at h hitem
      rw [rtAppendText] at h
      split at h
      · cases h
      · by_cases hfull : out.length + item.length ≥ rtXl
        · rw [if_pos hfull] at h
          cases h
        · rw [if_neg hfull] at h
          rw [ih h, List.length_append, hitem, itemsLength]
          omega

theorem writeItems_isSome_iff (out : Bytes) (hout : out.length < rtXl) (first : Bool) (rows : List TaskItem) :
    (writeItems first out rows).isSome ↔ (∀ t ∈ rows, Escapable t) ∧ out.length + itemsLength first rows < rtXl := by
  induction rows generalizing first out with
  | nil => simp [writeItems, itemsLength, hout]
  | cons t rows ih =>
    rw [writeItems, List.forall_mem_cons, itemsLength]
    cases he : escapeItem t with
    | none => simp [Escapable, he]
    | some e =>
      have hesc : Escapable t := by rw [Escapable, he]; rfl
      have hitem := item_length he first
      dsimp only
      generalize (if first then [] else lit ",") ++ itemText t e = item at hitem
      rw [← hitem, rtAppendText]
      by_cases hfull : out.length + item.length ≥ rtXl
      · rw [if_pos hfull]
        simp only [ite_self, Option.isSome_none, Bool.false_eq_true, false_iff, not_and]
        omega
      · rw [if_neg (show ¬ item.length ≥ rtXl by omega), if_neg hfull]
        dsimp only
        rw [ih _ (by rw [List.length_append]; omega), List.length_append]
        simp only [hesc, true_and]
        rw [Nat.add_assoc]

/-- The store is written exactly when every row can be escaped and the text stays below 64 KiB. -/
theorem writeStore_isSome_iff (rows : List TaskItem) :
    (writeStore rows).isSome ↔ (∀ t ∈ rows, Escapable t) ∧ storeLength rows < rtXl := by
  have hopen : (lit "\x7b\"tasks\":[").length = 10 := lit_length _
  have hclose : (lit "]\x7d\n").length = 3 := lit_length _
  have hiff := writeItems_isSome_iff (lit "\x7b\"tasks\":[") (by decide) true rows
  rw [writeStore, storeLength]
  cases hitems : writeItems true (lit "\x7b\"tasks\":[") rows with
  | none =>
    rw [hitems, hopen] at hiff
    simp only [Option.isSome_none, Bool.false_eq_true, false_iff, not_and, Option.bind_none] at hiff ⊢
    intro hesc
    have := hiff hesc
    omega
  | some out =>
    rw [hitems, hopen] at hiff
    have hlen := writeItems_length hitems
    rw [hopen] at hlen
    rw [Option.bind_some, rtAppendText, hlen, hclose]
    by_cases hfull : 10 + itemsLength true rows + 3 ≥ rtXl
    · rw [if_pos hfull]
      simp only [Option.isSome_none, Bool.false_eq_true, false_iff, not_and]
      omega
    · rw [if_neg hfull]
      simp only [Option.isSome_some, true_iff]
      exact ⟨(hiff.mp rfl).1, by omega⟩

/-! ## When a creation succeeds -/

/-- An event the branch of `task_created` is made for: an id no task has, a context and a valid status. -/
structure WellFormed (rows : List TaskItem) (payload : JsonRef) : Prop where
  fresh : ∃ id, jsonRefObjectGetString payload (lit "task_id") rtSmall = some id ∧ taskIndexOf rows id = none
  context : (jsonRefObjectGetString payload (lit "context_id") rtMed).isSome = true
  status : ∃ state, rtTaskJsonStatus payload rtSmall = some state ∧ taskStateOk state = true

theorem taskIndexOf_eraseIdx {rows : List TaskItem} {id : Bytes} (h : taskIndexOf rows id = none) (i : Nat) :
    taskIndexOf (rows.eraseIdx i) id = none := by
  rw [taskIndexOf] at h ⊢
  split at h
  · rename_i hid
    rw [if_pos hid]
  · rename_i hid
    rw [if_neg hid]
    rw [List.findIdx?_eq_none_iff] at h ⊢
    intro t ht
    exact h t (List.mem_of_mem_eraseIdx ht)

/-- With a finished task in it, the store always has a place for one more row. -/
theorem keptRows_of_terminal {rows : List TaskItem} (h : ∃ t ∈ rows, taskStateTerminal t.state = true) :
    ∃ kept, keptRows rows = some kept ∧ ∀ id, taskIndexOf rows id = none → taskIndexOf kept id = none := by
  rw [keptRows]
  split
  · rw [taskEvictOldestTerminal]
    cases hfind : rows.findIdx? fun t => taskStateTerminal t.state with
    | none =>
      obtain ⟨t, ht, hterminal⟩ := h
      rw [List.findIdx?_eq_none_iff] at hfind
      exact absurd hterminal (by simpa using hfind t ht)
    | some i => exact ⟨rows.eraseIdx i, rfl, fun id hid => taskIndexOf_eraseIdx hid i⟩
  · exact ⟨rows, rfl, fun _ hid => hid⟩

theorem createItem_isSome (slot : TaskItem) {items : List TaskItem} {payload : JsonRef} (h : WellFormed items payload) :
    ∃ t, createItem slot items payload = some t := by
  obtain ⟨id, hid, hfresh⟩ := h.fresh
  obtain ⟨context, hcontext⟩ := Option.isSome_iff_exists.mp h.context
  obtain ⟨state, hstatus, hok⟩ := h.status
  rw [createItem, hid]
  dsimp only
  rw [if_neg (by simp [hfresh]), hcontext, hstatus]
  dsimp only
  rw [if_pos hok]
  exact ⟨_, rfl⟩

/-- The rows a creation keeps and the row it makes: every text fits its mirror, and all of them the store's text. -/
def RoomFor (rows : List TaskItem) (payload : JsonRef) : Prop :=
  ∀ kept t, keptRows rows = some kept → createItem (creationSlot rows) kept payload = some t →
    (∀ u ∈ kept ++ [t], Escapable u) ∧ storeLength (kept ++ [t]) < rtXl

/-- Over a store with a finished task, a well-formed creation succeeds exactly when its row and the kept ones fit the
64 KiB text: no finished row is given up for that. -/
theorem creation_succeeds_iff {file : Option Bytes} {payloadJson : Bytes} {payload : JsonRef}
    (hterminal : ∃ t ∈ loadStore file, taskStateTerminal t.state = true)
    (hpayload : jsonRefTopObject payloadJson = some payload) (hwell : WellFormed (loadStore file) payload) :
    (rtTaskApplyEvent file (lit "task_created") payloadJson).2 = true ↔ RoomFor (loadStore file) payload := by
  obtain ⟨kept, hkept, hsub⟩ := keptRows_of_terminal hterminal
  have hwell' : WellFormed kept payload :=
    ⟨hwell.fresh.imp fun id hid => ⟨hid.1, hsub id hid.2⟩, hwell.context, hwell.status⟩
  obtain ⟨t, ht⟩ := createItem_isSome (creationSlot (loadStore file)) hwell'
  have hroom : RoomFor (loadStore file) payload ↔ (writeStore (kept ++ [t])).isSome = true := by
    rw [writeStore_isSome_iff]
    constructor
    · intro h
      exact h kept t hkept ht
    · intro h kept' t' hkept' ht'
      rw [hkept, Option.some.injEq] at hkept'
      subst hkept'
      rw [ht, Option.some.injEq] at ht'
      subst ht'
      exact h
  rw [hroom, rtTaskApplyEvent_rows, applyTaskEvent_created hpayload, hkept, Option.bind_some, ht, Option.map_some,
    Option.filter_some]
  by_cases hwrite : (writeStore (kept ++ [t])).isSome = true
  · simp [hwrite]
  · simp [hwrite]

/-- A file with one finished task. -/
def finishedFile : Option Bytes :=
  some (lit "\x7b\"tasks\":[\x7b\"task_id\":\"t0\",\"context_id\":\"chat:a\",\"state\":\"completed\"\x7d]\x7d")

def smallPayload : JsonRef := lit "\x7b\"task_id\":\"t1\",\"context_id\":\"chat:a\",\"state\":\"open\"\x7d"

/-- A finished task beside the new one. -/
theorem small_creation_succeeds : ∃ file payload, (∃ t ∈ loadStore file, taskStateTerminal t.state = true) ∧
    WellFormed (loadStore file) payload ∧ (rtTaskApplyEvent file (lit "task_created") payload).2 = true := by
  have hload : loadStore finishedFile = [{ blankItem with
      taskId := lit "t0", contextId := lit "chat:a", kind := lit "work", state := lit "completed"
      input := lit "null", external := lit "null", artifacts := lit "[]" }] := by
    unfold finishedFile
    repeat rw [lit_ofList]
    decide +kernel
  have hterminal : ∃ t ∈ loadStore finishedFile, taskStateTerminal t.state = true := by
    rw [hload]
    exact ⟨_, List.mem_singleton_self _, by decide⟩
  have hread : jsonRefTopObject smallPayload = some smallPayload ∧ jsonRefObjectGetString smallPayload (lit "task_id") rtSmall = some (lit "t1") ∧
      (jsonRefObjectGetString smallPayload (lit "context_id") rtMed).isSome = true ∧ rtTaskJsonStatus smallPayload rtSmall = some (lit "open") := by
    unfold smallPayload
    repeat rw [lit_ofList]
    decide +kernel
  have hwell : WellFormed (loadStore finishedFile) smallPayload :=
    ⟨⟨lit "t1", hread.2.1, by rw [hload]; decide⟩, hread.2.2.1, lit "open", hread.2.2.2, by decide⟩
  have hall : ((keptRows (loadStore finishedFile)).bind fun kept =>
      (createItem (creationSlot (loadStore finishedFile)) kept smallPayload).map fun t => kept ++ [t]).all
        (fun rows => decide ((∀ u ∈ rows, Escapable u) ∧ storeLength rows < rtXl)) = true := by
    rw [hload]
    unfold smallPayload
    repeat rw [lit_ofList]
    decide +kernel
  have hroom : RoomFor (loadStore finishedFile) smallPayload := by
    intro kept t hkept ht
    rw [hkept, Option.bind_some, ht] at hall
    simpa using hall
  exact ⟨finishedFile, smallPayload, hterminal, hwell, (creation_succeeds_iff hterminal hread.1 hwell).mpr hroom⟩

example : storeLength [] = 13 := by decide +kernel

/-! ## A store wedged by finished tasks -/

def memoryText : Bytes := List.replicate 4000 (ch 'm')

/-- The payload of a finished task with four thousand octets of working memory. -/
def bulkyMembers (c : Byte) : List (Bytes × Bytes) :=
  [(lit "task_id", quoted [c]), (lit "context_id", quoted (lit "chat:a")), (lit "state", quoted (lit "completed")),
    (lit "working_memory", quoted memoryText)]

def bulkyRow (c : Byte) : TaskItem :=
  { blankItem with
    taskId := [c], contextId := lit "chat:a", kind := lit "work", state := lit "completed", input := lit "null",
    external := lit "null", artifacts := lit "[]", workingMemory := memoryText }

theorem memoryText_plain : escaped memoryText = memoryText :=
  escaped_plain fun c hc => by
    rw [(List.mem_replicate.mp hc).2]
    decide

theorem memoryText_field : TextField taskWorkingMemoryMax memoryText := by
  refine ⟨fun c hc => ?_, by rw [memoryText, List.length_replicate]; decide⟩
  rw [(List.mem_replicate.mp hc).2]
  decide

theorem isPlain_ne_zero {c : Byte} (hc : isPlain c = true) : c ≠ 0 := by
  rintro rfl
  exact absurd hc (by decide)

theorem mirror_plain {cap : Nat} {s : Bytes} (hs : ∀ c ∈ s, isPlain c = true) (hlen : s.length < cap) :
    mirror cap s = some s := by
  have hfree : NulFree s := fun c hc => isPlain_ne_zero (hs c hc)
  rw [mirror_eq hfree, escaped_plain hs, if_pos hlen]

section Bulky
variable {c : Byte} (hc : isPlain c = true)
include hc

theorem bulky_written : WrittenMembers (bulkyMembers c) := by
  have hmemory : CleanValue (quoted memoryText) := memoryText_plain ▸ .text memoryText
  exact .key (by decide) (plainText_clean (by simpa using hc)) (.key (by decide) (plainText_clean (lit_all (by decide)))
    (.key (by decide) (plainText_clean (lit_all (by decide))) (.key (by decide) hmemory .nil)))

theorem bulky_id : jsonRefObjectGetString (objText (bulkyMembers c)) (lit "task_id") rtSmall = some [c] := by
  have hget : assoc (lit "task_id") (bulkyMembers c) = some (quoted [c]) := rfl
  have hfield : TextField rtSmall [c] := by
    refine ⟨fun d hd => ?_, by rw [List.length_singleton]; decide⟩
    rw [List.mem_singleton.mp hd]
    exact isPlain_ne_zero hc
  have hplain : escaped [c] = [c] := escaped_plain (by simpa using hc)
  have hcopy := hfield.copy
  rw [hplain] at hcopy
  rw [jsonRefObjectGetString, (bulky_written hc).get, hget, Option.bind_some, hcopy]

theorem bulky_context : jsonRefObjectGetString (objText (bulkyMembers c)) (lit "context_id") rtMed = some (lit "chat:a") := by
  have hget : assoc (lit "context_id") (bulkyMembers c) = some (quoted (lit "chat:a")) := rfl
  rw [jsonRefObjectGetString, (bulky_written hc).get, hget, Option.bind_some]
  rw [lit_ofList]; decide

theorem bulky_noState : jsonRefObjectGetObject (objText (bulkyMembers c)) (lit "state") = none := by
  rw [jsonRefObjectGetObject, (bulky_written hc).get]
  rfl

theorem bulky_status : rtTaskJsonStatus (objText (bulkyMembers c)) rtSmall = some (lit "completed") := by
  have hget : assoc (lit "state") (bulkyMembers c) = some (quoted (lit "completed")) := rfl
  rw [rtTaskJsonStatus, bulky_noState hc, Option.bind_none, jsonRefObjectGetString, (bulky_written hc).get, hget,
    Option.bind_some]
  rw [lit_ofList]; decide

theorem bulky_item {items : List TaskItem} (hfresh : taskIndexOf items [c] = none) :
    createItem blankItem items (objText (bulkyMembers c)) = some (bulkyRow c) := by
  have hms := bulky_written hc
  have hstate := bulky_noState hc
  have hmemory : rtTaskJsonStateString (objText (bulkyMembers c)) (lit "working_memory") taskWorkingMemoryMax =
      some memoryText := by
    have hget : assoc (lit "working_memory") (bulkyMembers c) = some (quoted memoryText) := rfl
    have hcopy := memoryText_field.copy
    rw [memoryText_plain] at hcopy
    rw [rtTaskJsonStateString, hstate, Option.bind_none, jsonRefObjectGetString, hms.get, hget, Option.bind_some, hcopy]
  have habsent : ∀ key cap, assoc key (bulkyMembers c) = none →
      rtTaskJsonStateString (objText (bulkyMembers c)) key cap = none := by
    intro key cap hkey
    rw [rtTaskJsonStateString, hstate, Option.bind_none, jsonRefObjectGetString, hms.get, hkey]
    rfl
  have hok : taskStateOk (lit "completed") = true := by rw [lit_ofList]; decide
  have hkind : kindField (objText (bulkyMembers c)) = lit "work" := by
    have hget : assoc (lit "kind") (bulkyMembers c) = none := rfl
    rw [kindField, jsonRefObjectGetString, hms.get, hget]
    rfl
  rw [createItem, bulky_id hc, bulky_context hc, bulky_status hc]
  simp only [hfresh, Option.isSome_none, Bool.false_eq_true, if_false, hok, if_true, hkind, hmemory,
    habsent (lit "work") _ rfl, habsent (lit "done_when") _ rfl, habsent (lit "affair_id") _ rfl,
    habsent (lit "delegate") _ rfl, rtTaskJsonStateValue, rtTaskJsonStateArray, jsonRefObjectGetArray, hstate,
    Option.bind_none, stringField, jsonRefObjectGetLong, updatedMember, nestedUpdated, hms.get]
  rfl

/-- The mirrors of the row are its own texts. -/
def bulkyMirrors (c : Byte) : EscapedItem :=
  { tid := [c], ctx := lit "chat:a", kind := lit "work", state := lit "completed", work := [], done := [],
    workingMemory := memoryText, affair := [], delegate := [], created := [] }

theorem bulky_escaped : escapeItem (bulkyRow c) = some (bulkyMirrors c) := by
  have hnil : ∀ cap, 0 < cap → mirror cap [] = some [] := fun cap hcap => mirror_plain (by simp) hcap
  have hid : mirror rtMed [c] = some [c] := mirror_plain (by simpa using hc) (by rw [List.length_singleton]; decide)
  have hctx : mirror rtMed (lit "chat:a") = some (lit "chat:a") :=
    mirror_plain (List.all_eq_true.mp (lit_all (by decide))) (by decide)
  have hkind : mirror rtMed (lit "work") = some (lit "work") :=
    mirror_plain (List.all_eq_true.mp (lit_all (by decide))) (by decide)
  have hstate : mirror rtMed (lit "completed") = some (lit "completed") :=
    mirror_plain (List.all_eq_true.mp (lit_all (by decide))) (by decide)
  have hmemory : mirror (taskWorkingMemoryMax * 2) memoryText = some memoryText := by
    refine mirror_plain (fun d hd => ?_) (by rw [memoryText, List.length_replicate]; decide)
    rw [(List.mem_replicate.mp hd).2]
    decide
  have hwork : (bulkyRow c).kind ≠ [] := by
    show lit "work" ≠ []
    decide
  rw [escapeItem, if_neg hwork]
  simp only [bulkyRow, blankItem, hid, hctx, hkind, hstate, hmemory, hnil _ (show 0 < rtMed by decide),
    hnil _ (show 0 < taskWorkMax * 2 by decide), hnil _ (show 0 < taskDoneMax * 2 by decide), Option.bind_eq_bind,
    Option.bind_some]
  rfl

end Bulky

/-- The ids of sixteen such tasks. -/
def bulkyIds : Bytes := lit "abcdefghijklmnop"

theorem bulkyIds_plain : ∀ c ∈ bulkyIds, isPlain c = true :=
  List.all_eq_true.mp (show bulkyIds.all isPlain = true by decide)

theorem bulky_state_length (c : Byte) : (objText (stateMembers (bulkyRow c) (bulkyMirrors c))).length = 4130 := by
  have hmemory : (quoted memoryText).length = 4002 := by
    rw [quoted, List.length_cons, List.length_append, memoryText, List.length_replicate]
    rfl
  rw [objText_length (by simp [stateMembers])]
  simp only [stateMembers, bulkyMirrors, bulkyRow, blankItem, List.map_append, List.sum_append, List.map_cons, List.sum_cons,
    hmemory]
  decide

theorem bulky_length {c : Byte} (hc : c ∈ bulkyIds) : rowLength (bulkyRow c) = 4240 := by
  rw [rowLength, bulky_escaped (bulkyIds_plain c hc)]
  show (objText (rowMembers (bulkyRow c) (bulkyMirrors c))).length = 4240
  have hid : (quoted [c]).length = 3 := rfl
  rw [objText_length (by simp [rowMembers])]
  simp only [rowMembers, List.map_cons, List.sum_cons, bulky_state_length]
  simp only [bulkyMirrors, bulkyRow, blankItem, hid]
  (repeat rw [lit_ofList]); decide

theorem bulky_itemsLength (first : Bool) {cs : Bytes} (hcs : ∀ c ∈ cs, c ∈ bulkyIds) :
    itemsLength first (cs.map bulkyRow) + (if first ∧ cs ≠ [] then 1 else 0) = 4241 * cs.length := by
  induction cs generalizing first with
  | nil => simp [itemsLength]
  | cons c cs ih =>
    have htail := ih false fun d hd => hcs d (List.mem_cons_of_mem _ hd)
    rw [List.map_cons, itemsLength, bulky_length (hcs c (by simp)), List.length_cons]
    simp only [Bool.false_eq_true, false_and, if_false] at htail
    cases first <;> simp <;> omega

/-- Fifteen of the rows fit the store, sixteen do not. -/
theorem bulky_writes {cs : Bytes} (hcs : ∀ c ∈ cs, c ∈ bulkyIds) (hne : cs ≠ []) :
    (writeStore (cs.map bulkyRow)).isSome ↔ cs.length ≤ 15 := by
  have hlen := bulky_itemsLength true hcs
  rw [if_pos ⟨rfl, hne⟩] at hlen
  rw [writeStore_isSome_iff, storeLength]
  have hesc : ∀ t ∈ cs.map bulkyRow, Escapable t := by
    intro t ht
    obtain ⟨c, hc, rfl⟩ := List.mem_map.mp ht
    rw [Escapable, bulky_escaped (bulkyIds_plain c (hcs c hc))]
    rfl
  have hxl : rtXl = 65536 := rfl
  constructor
  · intro h
    omega
  · intro h
    exact ⟨hesc, by omega⟩

theorem bulky_top {c : Byte} (hc : isPlain c = true) :
    jsonRefTopObject (objText (bulkyMembers c)) = some (objText (bulkyMembers c)) :=
  jsonRefTopObject_complete (bulky_written hc).objText (CleanValue.objText (bulky_written hc)).nulFree

theorem bulky_fresh {cs : Bytes} {c : Byte} (h : c ∉ cs) : taskIndexOf (cs.map bulkyRow) [c] = none := by
  rw [taskIndexOf, if_neg (by simp), List.findIdx?_eq_none_iff]
  intro t ht
  obtain ⟨d, hd, rfl⟩ := List.mem_map.mp ht
  have hne : d ≠ c := fun heq => h (heq ▸ hd)
  simp [bulkyRow, hne]

theorem bulky_rows {file : Option Bytes} {cs : Bytes} {c : Byte} (hfile : loadStore file = cs.map bulkyRow) (hlen : cs.length ≤ 15)
    (hc : c ∈ bulkyIds) (hfresh : c ∉ cs) :
    rowsToWrite file (lit "task_created") (objText (bulkyMembers c)) = some ((cs ++ [c]).map bulkyRow) := by
  have hplain := bulkyIds_plain c hc
  have htype : rtTaskIsEventType (lit "task_created") = true := by rw [lit_ofList]; decide
  have hmax : taskMaxItems = 32 := rfl
  simp only [rowsToWrite, htype, if_true, bulky_top hplain, reduceTasks, hfile, reduceCreated]
  rw [if_neg (by rw [List.length_map]; omega), bulky_item hplain (bulky_fresh hfresh)]
  simp

/-- Any fifteen of these tasks make a reachable store. -/
theorem bulky_reached {cs : Bytes} (hcs : ∀ c ∈ cs, c ∈ bulkyIds) (hnodup : cs.Nodup) (hlen : cs.length ≤ 15) :
    ∃ file, Reached file ∧ loadStore file = cs.map bulkyRow := by
  induction cs using List.reverseRecOn with
  | nil => exact ⟨none, .empty, rfl⟩
  | append_singleton cs c ih =>
    rw [List.length_append, List.length_singleton] at hlen
    obtain ⟨hrest, -, hdisjoint⟩ := List.nodup_append.mp hnodup
    have hfresh : c ∉ cs := fun hmem => hdisjoint c hmem c (by simp) rfl
    obtain ⟨file, hrun, hfile⟩ := ih (fun d hd => hcs d (by simp [hd])) hrest (by omega)
    have hc := hcs c (by simp)
    have hplain := bulkyIds_plain c hc
    have hrows := bulky_rows hfile (by omega) hc hfresh
    have hfit : stepFits file (lit "task_created") (objText (bulkyMembers c)) = true := by
      have hms := bulky_written hplain
      have hrevs : (cs.map bulkyRow).all (fun t => decide (t.workRev < int64Max)) = true := by
        simp only [List.all_map, List.all_eq_true]
        exact fun d _ => rfl
      rw [stepFits, bulky_top hplain, hfile, hrows, hrevs]
      simp only [rtTaskJsonStateValue, rtTaskJsonStateArray, bulky_noState hplain, Option.bind_none, jsonRefObjectGetArray,
        hms.get]
      rfl
    obtain ⟨text, hw⟩ := Option.isSome_iff_exists.mp ((bulky_writes hcs (by simp)).mpr (by simpa using hlen))
    obtain ⟨happly, -, hload, -⟩ := task_store_round_trips hrun hfit hrows hw
    have hstep := Reached.step hrun hfit
    rw [happly] at hstep
    refine ⟨some text, hstep, ?_⟩
    rw [hload, List.map_map]
    rfl

/-- Fifteen finished tasks fill the store: the next creation is refused, and each retry of it. -/
theorem finished_tasks_wedge_creation : ∃ file payload, Reached file ∧
    (∃ t ∈ loadStore file, taskStateTerminal t.state = true) ∧ jsonRefTopObject payload = some payload ∧
      WellFormed (loadStore file) payload ∧ (rtTaskApplyEvent file (lit "task_created") payload).2 = false := by
  have hsub : ∀ c ∈ bulkyIds.take 15, c ∈ bulkyIds := fun c hc => List.mem_of_mem_take hc
  obtain ⟨file, hrun, hfile⟩ := bulky_reached hsub (by decide) (by decide)
  have hlast : ch 'p' ∈ bulkyIds := by decide
  have hfresh : ch 'p' ∉ bulkyIds.take 15 := by decide
  have hrows := bulky_rows hfile (by decide) hlast hfresh
  have hfull : writeStore ((bulkyIds.take 15 ++ [ch 'p']).map bulkyRow) = none := by
    have hall : ∀ c ∈ bulkyIds.take 15 ++ [ch 'p'], c ∈ bulkyIds := by
      intro c hc
      rcases List.mem_append.mp hc with hc | hc
      · exact hsub c hc
      · exact List.mem_singleton.mp hc ▸ hlast
    rw [← Option.not_isSome_iff_eq_none, bulky_writes hall (by simp)]
    decide
  refine ⟨file, objText (bulkyMembers (ch 'p')), hrun, ⟨bulkyRow (ch 'a'), ?_, rfl⟩, bulky_top (by decide), ?_, ?_⟩
  · rw [hfile]
    exact List.mem_map_of_mem (by decide)
  · rw [hfile]
    exact ⟨⟨_, bulky_id (by decide), bulky_fresh hfresh⟩, by rw [bulky_context (by decide)]; rfl,
      ⟨_, bulky_status (by decide), by rw [lit_ofList]; decide⟩⟩
  · rw [rtTaskApplyEvent, hrows, Option.bind_some, hfull]

/-! ## What shows of the slot -/

/-- What of a compacted member's field is still the old content. -/
def compactResidue (v : Option JsonRef) (outLen : Nat) (old : Bytes) : Bytes :=
  match v with
  | none => []
  | some v =>
    match jsonRefValueCopy rtLarge v with
    | none => old
    | some raw =>
      match jsonCompactWrite outLen raw with
      | (_, true) => []
      | (out, false) => residue out old

theorem compactField_eq_iff (v : Option JsonRef) (outLen : Nat) (a b dflt : Bytes) :
    compactField v outLen a dflt = compactField v outLen b dflt ↔ compactResidue v outLen a = compactResidue v outLen b := by
  cases v with
  | none => simp [compactField, compactResidue]
  | some v =>
    simp only [compactField, compactResidue, valueCompact]
    cases jsonRefValueCopy rtLarge v with
    | none => rfl
    | some raw =>
      dsimp only
      obtain ⟨out, ok⟩ := jsonCompactWrite outLen raw
      cases ok with
      | true => simp
      | false => exact overlay_eq_iff out a b

/-- The same of a string member written without a look at the verdict. -/
def stringResidue (obj : JsonRef) (key : Bytes) (outLen : Nat) (old : Bytes) : Bytes :=
  match jsonRefObjectGet obj key with
  | none => old
  | some v =>
    match stringCopyWrite outLen v with
    | (_, true) => []
    | (out, false) => residue out old

theorem stringField_eq_iff (obj : JsonRef) (key : Bytes) (outLen : Nat) (a b : Bytes) :
    stringField obj key outLen a = stringField obj key outLen b ↔
      stringResidue obj key outLen a = stringResidue obj key outLen b := by
  simp only [stringField, stringResidue]
  cases jsonRefObjectGet obj key with
  | none => rfl
  | some v =>
    dsimp only
    obtain ⟨out, ok⟩ := stringCopyWrite outLen v
    cases ok with
    | true => simp
    | false => exact overlay_eq_iff out a b

/-- The old number, unless the member is one. -/
def longResidue (obj : JsonRef) (key : Bytes) (old : Int) : Option Int :=
  match jsonRefObjectGet obj key with
  | none => some old
  | some v => if jsonRefInferType v = .number ∧ parseJsonNumberEnd v = some [] then none else some old

theorem getLong_of_residue {obj : JsonRef} {key : Bytes} {old n : Int} (h : longResidue obj key old = some n) :
    n = old ∧ (jsonRefObjectGetLong obj key old).1 = old ∧ ∀ other, longResidue obj key other = some other := by
  rw [longResidue] at h
  rw [jsonRefObjectGetLong]
  simp only [longResidue]
  split at h
  · rename_i hget
    cases h
    refine ⟨rfl, ?_, ?_⟩
    · simp only [hget]
    · intro other
      rfl
  · rename_i v hget
    split at h
    · cases h
    · rename_i hnumber
      simp only [Option.some.injEq] at h
      refine ⟨h.symm, ?_, ?_⟩
      · simp only [hget, jsonRefGetLong, if_neg hnumber]
      · intro other
        simp only [if_neg hnumber]

theorem getLong_of_set {obj : JsonRef} {key : Bytes} {old : Int} (h : longResidue obj key old = none) (other : Int) :
    (jsonRefObjectGetLong obj key other).1 = (jsonRefObjectGetLong obj key old).1 ∧ longResidue obj key other = none := by
  rw [longResidue] at h
  split at h
  · cases h
  · rename_i v hget
    split at h
    · rename_i hnumber
      refine ⟨?_, ?_⟩
      · simp only [jsonRefObjectGetLong, hget, jsonRefGetLong, if_pos hnumber]
      · simp only [longResidue, hget, if_pos hnumber]
    · cases h

theorem getLong_eq_iff (obj : JsonRef) (key : Bytes) (a b : Int) :
    (jsonRefObjectGetLong obj key a).1 = (jsonRefObjectGetLong obj key b).1 ↔ longResidue obj key a = longResidue obj key b := by
  cases ha : longResidue obj key a with
  | none =>
    obtain ⟨heq, hb⟩ := getLong_of_set ha b
    simp [heq, hb]
  | some n =>
    obtain ⟨rfl, hlong, hall⟩ := getLong_of_residue ha
    rw [hlong, hall b, (getLong_of_residue (hall b)).2.1, Option.some.injEq]

/-- The old `updated_ms`, unless the nested `state` has one; a zero gives way to the top-level member. -/
def updatedResidue (payload : JsonRef) (old : Int) : Option Int :=
  (match jsonRefObjectGetObject payload (lit "state") with
    | none => some old
    | some state => longResidue state (lit "updated_ms") old).map fun old =>
      if old = 0 then (jsonRefObjectGetLong payload (lit "updated_ms") 0).1 else old

theorem updatedMember_of_kept {payload : JsonRef} {old : Int} (h : nestedUpdated payload old = old) :
    updatedMember payload old = if old = 0 then (jsonRefObjectGetLong payload (lit "updated_ms") 0).1 else old := by
  rw [updatedMember, h]
  split
  · rename_i hzero
    rw [hzero]
  · rfl

theorem updatedMember_eq_iff (payload : JsonRef) (a b : Int) :
    updatedMember payload a = updatedMember payload b ↔ updatedResidue payload a = updatedResidue payload b := by
  cases hstate : jsonRefObjectGetObject payload (lit "state") with
  | none =>
    have hkept : ∀ old, nestedUpdated payload old = old := fun old => by rw [nestedUpdated, hstate]
    simp only [updatedMember_of_kept (hkept a), updatedMember_of_kept (hkept b), updatedResidue, hstate, Option.map_some,
      Option.some.injEq]
  | some state =>
    cases ha : longResidue state (lit "updated_ms") a with
    | none =>
      obtain ⟨heq, hb⟩ := getLong_of_set ha b
      have hsame : nestedUpdated payload b = nestedUpdated payload a := by
        simp only [nestedUpdated, hstate]
        exact heq
      simp only [updatedMember, hsame, updatedResidue, hstate, ha, hb, Option.map_none]
    | some n =>
      obtain ⟨rfl, hlong, hall⟩ := getLong_of_residue ha
      have hkept : ∀ old, nestedUpdated payload old = old := by
        intro old
        rw [nestedUpdated, hstate]
        exact (getLong_of_residue (hall old)).2.1
      simp only [updatedMember_of_kept (hkept n), updatedMember_of_kept (hkept b), updatedResidue, hstate, hall,
        Option.map_some, Option.some.injEq]

/-- What a payload lets show through of the slot its row is built in. -/
structure SlotResidue where
  input : Bytes
  external : Bytes
  artifacts : Bytes
  createdEventId : Bytes
  createdMs : Option Int
  updatedMs : Option Int
  deriving DecidableEq

def slotResidue (payload : JsonRef) (slot : TaskItem) : SlotResidue :=
  { input := compactResidue (jsonRefObjectGet payload (lit "input")) taskInputMax slot.input
    external := compactResidue (rtTaskJsonStateValue payload (lit "external")) taskExternalMax slot.external
    artifacts := compactResidue (rtTaskJsonStateArray payload (lit "artifacts")) taskArtifactsMax slot.artifacts
    createdEventId := stringResidue payload (lit "created_event_id") rtSmall slot.createdEventId
    createdMs := longResidue payload (lit "created_ms") slot.createdMs
    updatedMs := updatedResidue payload slot.updatedMs }

/-- Two accepted creations of one payload make the same row exactly when the slots show through alike. -/
theorem createItem_eq_iff {slot slot' t t' : TaskItem} {items items' : List TaskItem} {payload : JsonRef}
    (h : createItem slot items payload = some t) (h' : createItem slot' items' payload = some t') :
    t = t' ↔ slotResidue payload slot = slotResidue payload slot' := by
  rw [createItem] at h h'
  split at h
  · cases h
  rename_i taskId hid
  rw [hid] at h'
  dsimp only at h'
  split at h
  · cases h
  split at h'
  · cases h'
  split at h
  · rename_i contextId state hcontext hstatus
    rw [hcontext, hstatus] at h'
    dsimp only at h'
    split at h
    · rename_i hok
      rw [if_pos hok] at h'
      cases h
      cases h'
      simp only [TaskItem.mk.injEq, true_and, and_true, slotResidue, SlotResidue.mk.injEq, compactField_eq_iff,
        stringField_eq_iff, getLong_eq_iff, updatedMember_eq_iff]
    · cases h
  · cases h

theorem created_row {rows out : List TaskItem} {payloadJson : Bytes} {payload : JsonRef}
    (hpayload : jsonRefTopObject payloadJson = some payload)
    (h : applyTaskEvent rows (lit "task_created") payloadJson = some out) :
    ∃ kept t, keptRows rows = some kept ∧ createItem (creationSlot rows) kept payload = some t ∧ out = kept ++ [t] := by
  rw [applyTaskEvent_created hpayload] at h
  obtain ⟨kept, hkept, hmade⟩ := Option.bind_eq_some_iff.mp (Option.filter_eq_some_iff.mp h).1
  obtain ⟨t, ht, rfl⟩ := Option.map_eq_some_iff.mp hmade
  exact ⟨kept, t, hkept, ht, rfl⟩

/-- Two stores get the same new row from one accepted event exactly when what the event leaves unset reads the same in
the two slots. -/
theorem created_row_same_iff {rows rows' out out' : List TaskItem} {payloadJson : Bytes} {payload : JsonRef}
    (hpayload : jsonRefTopObject payloadJson = some payload)
    (h : applyTaskEvent rows (lit "task_created") payloadJson = some out)
    (h' : applyTaskEvent rows' (lit "task_created") payloadJson = some out') :
    out.getLast? = out'.getLast? ↔ slotResidue payload (creationSlot rows) = slotResidue payload (creationSlot rows') := by
  obtain ⟨kept, t, -, ht, rfl⟩ := created_row hpayload h
  obtain ⟨kept', t', -, ht', rfl⟩ := created_row hpayload h'
  rw [List.getLast?_concat, List.getLast?_concat, Option.some.injEq]
  exact createItem_eq_iff ht ht'

/-- A payload like the one the runtime makes for a user message. -/
def messageMembers (text : Bytes) : List (Bytes × Bytes) :=
  [(lit "task_id", quoted (lit "t2")), (lit "context_id", quoted (lit "chat:b")), (lit "kind", quoted (lit "input")),
    (lit "input", objText [(lit "type", quoted (lit "message")), (lit "text", quoted text)]),
    (lit "created_event_id", quoted (lit "evt_1")), (lit "created_ms", decInt 5),
    (lit "state", objText [(lit "status", quoted (lit "open")), (lit "artifacts", lit "[]"), (lit "updated_ms", decInt 5)])]

/-- A task of another conversation, with an input of its own. -/
def lastRow (input : Bytes) : TaskItem :=
  { blankItem with taskId := lit "t1", contextId := lit "chat:a", state := lit "open", input := input }

/-- A full store: a finished task, thirty open ones and that one. -/
def fullRows (input : Bytes) : List TaskItem :=
  { blankItem with taskId := lit "t0", state := lit "completed" } ::
    (List.range 30).map (fun i => { blankItem with taskId := lit "o" ++ decNat i, state := lit "open" }) ++
      [lastRow input]

/-- The row the message gets, around the input it is found with. -/
def messageRow (input : Bytes) : TaskItem :=
  { blankItem with
    taskId := lit "t2", contextId := lit "chat:b", kind := lit "input", state := lit "open", input := input,
    external := lit "null", artifacts := lit "[]", createdEventId := lit "evt_1", createdMs := 5, updatedMs := 5 }

def longMessage : Bytes := List.replicate 4096 (ch 'a')

theorem longMessage_clean : CleanValue (quoted longMessage) := by
  have hplain : escaped longMessage = longMessage := escaped_plain fun c hc => by
    rw [(List.mem_replicate.mp hc).2]
    decide
  exact hplain ▸ .text longMessage

theorem longMessage_written : WrittenMembers (messageMembers longMessage) := by
  have hinput : WrittenMembers [(lit "type", quoted (lit "message")), (lit "text", quoted longMessage)] :=
    .key (by decide) (plainText_clean (lit_all (by decide))) (.key (by decide) longMessage_clean .nil)
  have hstate : WrittenMembers [(lit "status", quoted (lit "open")), (lit "artifacts", lit "[]"), (lit "updated_ms", decInt 5)] :=
    .key (by decide) (plainText_clean (lit_all (by decide))) (.key (by decide)
      (jsonField_emptyArray (show 2 < taskArtifactsMax by decide)).clean (.key (by decide) (.long 5) .nil))
  exact .key (by decide) (plainText_clean (by decide)) (.key (by decide) (plainText_clean (lit_all (by decide)))
    (.key (by decide) (plainText_clean (lit_all (by decide))) (.key (by decide) (.objText hinput)
      (.key (by decide) (plainText_clean (lit_all (by decide))) (.key (by decide) (.long 5)
        (.key (by decide) (.objText hstate) .nil))))))

/-- A text in another conversation. -/
def secretInput : Bytes := lit "\x7b\"type\":\"message\",\"text\":\"s\"\x7d"

theorem longMessage_item : createItem (creationSlot (fullRows secretInput)) ((fullRows secretInput).eraseIdx 0)
    (objText (messageMembers longMessage)) = some (messageRow secretInput) ∧
      createItem blankItem [] (objText (messageMembers longMessage)) = some (messageRow []) := by
  have hms := longMessage_written
  generalize hmessage : messageMembers longMessage = ms at hms ⊢
  simp only [createItem, kindField, jsonRefObjectGetString, rtTaskJsonStatus, rtTaskJsonStateString, rtTaskJsonStateValue,
    rtTaskJsonStateArray, jsonRefObjectGetObject, jsonRefObjectGetArray, stringField, jsonRefObjectGetLong, updatedMember,
    nestedUpdated, hms.get]
  subst hmessage
  decide +kernel

example : itemsLength true [] = 0 := by decide +kernel

theorem full_fits : (∀ u ∈ (fullRows secretInput).eraseIdx 0 ++ [messageRow secretInput], Escapable u) ∧
    storeLength ((fullRows secretInput).eraseIdx 0 ++ [messageRow secretInput]) < rtXl := by
  decide +kernel

example : itemsLength false [] = 0 := by decide +kernel

theorem longMessage_top : jsonRefTopObject (objText (messageMembers longMessage)) = some (objText (messageMembers longMessage)) :=
  jsonRefTopObject_complete longMessage_written.objText (CleanValue.objText longMessage_written).nulFree

/-- A message too long to be copied: in a full store its task carries the input of the last task, of another conversation. -/
theorem long_message_row_leaks : ∃ out out',
    applyTaskEvent (fullRows secretInput) (lit "task_created") (objText (messageMembers longMessage)) = some out ∧
      applyTaskEvent [] (lit "task_created") (objText (messageMembers longMessage)) = some out' ∧
      out.getLast? = some (messageRow secretInput) ∧ out.getLast? ≠ out'.getLast? := by
  have hkept : keptRows (fullRows secretInput) = some ((fullRows secretInput).eraseIdx 0) := by decide +kernel
  have hfirst : creationSlot [] = blankItem := rfl
  refine ⟨(fullRows secretInput).eraseIdx 0 ++ [messageRow secretInput], [] ++ [messageRow []], ?_, ?_, ?_, ?_⟩
  · rw [applyTaskEvent_created longMessage_top, hkept, Option.bind_some, longMessage_item.1, Option.map_some,
      Option.filter_some, if_pos ((writeStore_isSome_iff _).mpr full_fits)]
  · rw [applyTaskEvent_created longMessage_top, show keptRows [] = some [] from rfl, Option.bind_some, hfirst,
      longMessage_item.2, Option.map_some, Option.filter_some, if_pos (by decide +kernel)]
  · rw [List.getLast?_concat]
  · rw [List.getLast?_concat, List.getLast?_concat]
    decide

/-- A short message sets every field. -/
theorem short_message_row_same : ∃ out out',
    applyTaskEvent [] (lit "task_created") (objText (messageMembers (lit "hi"))) = some out ∧
      applyTaskEvent [lastRow secretInput] (lit "task_created") (objText (messageMembers (lit "hi"))) = some out' ∧
      out.getLast? = out'.getLast? := by
  obtain ⟨htop, hsome, hsome', hsame⟩ :
      jsonRefTopObject (objText (messageMembers (lit "hi"))) = some (objText (messageMembers (lit "hi"))) ∧
        (applyTaskEvent [] (lit "task_created") (objText (messageMembers (lit "hi")))).isSome = true ∧
        (applyTaskEvent [lastRow secretInput] (lit "task_created") (objText (messageMembers (lit "hi")))).isSome = true ∧
        slotResidue (objText (messageMembers (lit "hi"))) (creationSlot []) =
          slotResidue (objText (messageMembers (lit "hi"))) (creationSlot [lastRow secretInput]) := by
    decide +kernel
  obtain ⟨out, hout⟩ := Option.isSome_iff_exists.mp hsome
  obtain ⟨out', hout'⟩ := Option.isSome_iff_exists.mp hsome'
  exact ⟨out, out', hout, hout', (created_row_same_iff htop hout hout').mpr hsame⟩

end Floofclaw.Guarantees.TaskCreation
