import Mathlib.Data.Option.Basic
import Floofclaw.Guarantees.IteratedMembers
import Floofclaw.Guarantees.OwnedKeys
import Floofclaw.Guarantees.TaskCreation
import Floofclaw.Guarantees.TaskPayloads
import Floofclaw.Source.TaskMemory

/-!
# Working memory only grows

A text is appended to the working memory of a task in two stages. The first one
builds the event, the second one applies it, and both of them bound the joined
text. Its escape is bounded by the second stage alone, when the store is
written. Between the appends the memory of a task stays what it was, over any
run whose files load back.
-/

set_option autoImplicit false

namespace Floofclaw.Guarantees.TaskMemories
open Floofclaw.Lib Floofclaw.Source.Json Floofclaw.Source.TaskState Floofclaw.Source.TaskEvents
open Floofclaw.Source.TaskMemory
open Floofclaw.Guarantees.TaskStoreText Floofclaw.Guarantees.TaskRoundTrip Floofclaw.Guarantees.TaskCreation
open Floofclaw.Guarantees.TaskPayloads
open Floofclaw.Guarantees.TaskStates (DistinctIds RowsChange reduceTasks_change reduceItem_change createItem_new)

/-! ## The text of the store -/

/-- The escapes of a row's texts, however long they are. -/
def escapes (t : TaskItem) : EscapedItem :=
  { tid := escaped (cstr t.taskId), ctx := escaped (cstr t.contextId)
    kind := escaped (cstr (if t.kind = [] then lit "work" else t.kind)), state := escaped (cstr t.state)
    work := escaped (cstr t.work), done := escaped (cstr t.doneWhen)
    workingMemory := escaped (cstr t.workingMemory), affair := escaped (cstr t.affairId)
    delegate := escaped (cstr t.delegate), created := escaped (cstr t.createdEventId) }

def itemsText : Bool → List TaskItem → Bytes
  | _, [] => []
  | first, t :: rows => (if first then [] else lit ",") ++ itemText t (escapes t) ++ itemsText false rows

/-- The file of the rows, without a bound on any text. -/
def storeText (rows : List TaskItem) : Bytes := lit "\x7b\"tasks\":[" ++ itemsText true rows ++ lit "]\x7d\n"

/-- The store fits its file. -/
def FitsFile (rows : List TaskItem) : Prop := (storeText rows).length < rtXl

theorem mirror_escaped {cap : Nat} {s e : Bytes} (h : mirror cap s = some e) : e = escaped (cstr s) := by
  rw [mirror] at h
  split at h
  · rename_i out hout
    cases h
    exact (jsonEscape_fits hout).1
  · cases h

theorem escapeItem_some {t : TaskItem} {e : EscapedItem} (h : escapeItem t = some e) : e = escapes t := by
  unfold escapeItem at h
  obtain ⟨tid, h1, h⟩ := Option.bind_eq_some_iff.mp h
  obtain ⟨ctx, h2, h⟩ := Option.bind_eq_some_iff.mp h
  obtain ⟨kind, h3, h⟩ := Option.bind_eq_some_iff.mp h
  obtain ⟨state, h4, h⟩ := Option.bind_eq_some_iff.mp h
  obtain ⟨work, h5, h⟩ := Option.bind_eq_some_iff.mp h
  obtain ⟨done, h6, h⟩ := Option.bind_eq_some_iff.mp h
  obtain ⟨wm, h7, h⟩ := Option.bind_eq_some_iff.mp h
  obtain ⟨aff, h8, h⟩ := Option.bind_eq_some_iff.mp h
  obtain ⟨del, h9, h⟩ := Option.bind_eq_some_iff.mp h
  obtain ⟨created, h10, h⟩ := Option.bind_eq_some_iff.mp h
  cases h
  rw [mirror_escaped h1, mirror_escaped h2, mirror_escaped h3, mirror_escaped h4, mirror_escaped h5, mirror_escaped h6,
    mirror_escaped h7, mirror_escaped h8, mirror_escaped h9, mirror_escaped h10]
  rfl

theorem itemsLength_text {rows : List TaskItem} (h : ∀ t ∈ rows, Escapable t) (first : Bool) :
    itemsLength first rows = (itemsText first rows).length := by
  induction rows generalizing first with
  | nil => rfl
  | cons t rows ih =>
    obtain ⟨ht, hrows⟩ := List.forall_mem_cons.mp h
    obtain ⟨e, he⟩ := Option.isSome_iff_exists.mp ht
    rw [itemsLength, itemsText, ih hrows, List.length_append, ← escapeItem_some he, item_length he first]

theorem writeItems_text {first : Bool} {out out' : Bytes} {rows : List TaskItem}
    (h : writeItems first out rows = some out') : out' = out ++ itemsText first rows := by
  induction rows generalizing first out with
  | nil =>
    rw [writeItems, Option.some.injEq] at h
    simp [itemsText, h]
  | cons t rows ih =>
    rw [writeItems] at h
    split at h
    · cases h
    · rename_i e he
      rw [itemsText, ← escapeItem_some he]
      dsimp only at h
      generalize (if first then [] else lit ",") ++ itemText t e = item at h ⊢
      split at h
      · cases h
      · rw [rtAppendText] at h
        by_cases hfull : out.length + item.length ≥ rtXl
        · rw [if_pos hfull] at h
          cases h
        · rw [if_neg hfull] at h
          rw [ih h, List.append_assoc]

/-- The store is written exactly when the texts of its rows fit their mirrors and the whole fits the file. -/
theorem writeStore_text (rows : List TaskItem) (text : Bytes) :
    writeStore rows = some text ↔ (∀ t ∈ rows, Escapable t) ∧ FitsFile rows ∧ text = storeText rows := by
  have hlen : (∀ t ∈ rows, Escapable t) → storeLength rows = (storeText rows).length := by
    intro hesc
    have hopen : (lit "\x7b\"tasks\":[").length = 10 := lit_length _
    have hclose : (lit "]\x7d\n").length = 3 := lit_length _
    rw [storeLength, itemsLength_text hesc, storeText, List.length_append, List.length_append, hopen, hclose]
  have htext : ∀ {out}, writeStore rows = some out → out = storeText rows := by
    intro out h
    obtain ⟨items, hitems, h⟩ := Option.bind_eq_some_iff.mp h
    rw [rtAppendText] at h
    split at h
    · cases h
    · cases h
      rw [writeItems_text hitems, storeText]
  constructor
  · intro h
    obtain ⟨hesc, hfits⟩ := (writeStore_isSome_iff rows).mp (by rw [h]; rfl)
    exact ⟨hesc, by rw [FitsFile, ← hlen hesc]; exact hfits, htext h⟩
  · rintro ⟨hesc, hfits, rfl⟩
    obtain ⟨out, hout⟩ := Option.isSome_iff_exists.mp ((writeStore_isSome_iff rows).mpr ⟨hesc, by rw [hlen hesc]; exact hfits⟩)
    rw [hout, htext hout]

/-! ## The two stages -/

/-- The rows with the text of the payload on a line of its own in the memory of the task it names. -/
def remembered (rows : List TaskItem) (payload : JsonRef) (ms : Int) : List TaskItem :=
  match (jsonRefObjectGetString payload (lit "task_id") rtSmall).bind (taskIndexOf rows),
    jsonRefObjectGetString payload (lit "working_memory") taskWorkingMemoryMax with
  | some idx, some incoming =>
    rows.modify idx fun t => stampUpdated { t with workingMemory := appendMemory t.workingMemory incoming } ms
  | _, _ => rows

/-- What the first stage has checked of an append it accepts. -/
structure Checked (rows : List TaskItem) (payload : JsonRef) (ms : Int) (id : Bytes) (idx : Nat) (t : TaskItem)
    (incoming out : Bytes) : Prop where
  named : jsonRefObjectGetString payload (lit "task_id") rtSmall = some id
  found : taskIndexOf rows id = some idx
  row : rows[idx]? = some t
  text : jsonRefObjectGetString payload (lit "working_memory") taskWorkingMemoryMax = some incoming
  nonempty : incoming ≠ []
  room : (appendMemory t.workingMemory incoming).length < taskWorkingMemoryMax
  event : out = objText (appendMembers (escaped id) (escaped incoming) ms)

theorem appendMemory_length (memory incoming : Bytes) :
    (appendMemory memory incoming).length = memory.length + (if memory = [] then 0 else 1) + incoming.length := by
  rw [appendMemory]
  split
  · rename_i h
    simp [h]
  · have hline : (lit "\n").length = 1 := rfl
    rw [List.length_append, List.length_append, hline]

theorem normalizeMemoryAppend_checked {rows : List TaskItem} {payload : JsonRef} {ms : Int} {outLen : Nat} {out : Bytes}
    (h : normalizeMemoryAppend rows payload ms outLen = some out) :
    ∃ id idx t incoming, Checked rows payload ms id idx t incoming out := by
  rw [normalizeMemoryAppend] at h
  obtain ⟨_, -, h⟩ := Option.bind_eq_some_iff.mp h
  obtain ⟨_, -, h⟩ := Option.bind_eq_some_iff.mp h
  obtain ⟨id, hid, h⟩ := Option.bind_eq_some_iff.mp h
  obtain ⟨_, -, h⟩ := Option.bind_eq_some_iff.mp h
  obtain ⟨etask, hetask, h⟩ := Option.bind_eq_some_iff.mp h
  obtain ⟨_, -, h⟩ := Option.bind_eq_some_iff.mp h
  obtain ⟨incoming, hincoming, h⟩ := Option.bind_eq_some_iff.mp h
  obtain ⟨_, hne, h⟩ := Option.bind_eq_some_iff.mp h
  obtain ⟨current, hcurrent, h⟩ := Option.bind_eq_some_iff.mp h
  obtain ⟨eincoming, heincoming, h⟩ := Option.bind_eq_some_iff.mp h
  obtain ⟨_, hroom, hout⟩ := Option.bind_eq_some_iff.mp h
  have hroom := (Option.guard_eq_some' _).mp hroom
  rw [rtTaskWorkingMemoryOf] at hcurrent
  obtain ⟨t, hrow, hmemory⟩ := Option.bind_eq_some_iff.mp hcurrent
  obtain ⟨idx, hfound, hrow⟩ := Option.bind_eq_some_iff.mp hrow
  split at hmemory
  · cases hmemory
  · cases hmemory
    dsimp only at hout
    split at hout
    · cases hout
    · cases hout
      rw [mirror_escaped hetask, mirror_escaped heincoming, cstr_eq_self (getString_text hid).nulFree,
        cstr_eq_self (getString_text hincoming).nulFree]
      exact ⟨id, idx, t, incoming, hid, hfound, hrow, hincoming, (Option.guard_eq_some' _).mp hne,
        by rw [appendMemory_length]; exact hroom, rfl⟩

theorem appendMembers_written (id incoming : Bytes) (ms : Int) :
    WrittenMembers (appendMembers (escaped id) (escaped incoming) ms) :=
  .key (by decide) (.text _) (.key (by decide) (.text _) (.key (by decide) (.long ms) .nil))

section Checked
variable {rows : List TaskItem} {payload : JsonRef} {ms : Int} {id : Bytes} {idx : Nat} {t : TaskItem} {incoming out : Bytes}

theorem Checked.remembered_eq (h : Checked rows payload ms id idx t incoming out) : remembered rows payload ms =
    rows.set idx (stampUpdated { t with workingMemory := appendMemory t.workingMemory incoming } ms) := by
  rw [remembered, h.named, Option.bind_some, h.found, h.text]
  dsimp only
  obtain ⟨hlt, -⟩ := List.getElem?_eq_some_iff.mp h.row
  refine List.ext_getElem? fun j => ?_
  rw [List.getElem?_modify, List.getElem?_set]
  by_cases hj : idx = j
  · subst hj
    simp only [h.row, if_true, if_pos hlt]
    rfl
  · simp [hj]

/-- The second stage reads the event as the first one meant it. -/
theorem Checked.reduced (h : Checked rows payload ms id idx t incoming out) (hms : InLong ms) :
    jsonRefTopObject out = some out ∧
      reduceTasks rows (lit "task_working_memory_appended") out = some (remembered rows payload ms) := by
  have hw := appendMembers_written id incoming ms
  have hid : jsonRefObjectGetString out (lit "task_id") rtSmall = some id := by
    rw [h.event, jsonRefObjectGetString, hw.get]
    exact (getString_text h.named).copy
  have htext : jsonRefObjectGetString out (lit "working_memory") taskWorkingMemoryMax = some incoming := by
    rw [h.event, jsonRefObjectGetString, hw.get]
    exact (getString_text h.text).copy
  have hupdated : jsonRefObjectGetLong out (lit "updated_ms") 0 = (ms, true) := by
    rw [h.event, written_long hw rfl, jsonRefGetLong_decInt hms.1 hms.2]
  refine ⟨h.event ▸ written_top hw, ?_⟩
  rw [reduceTasks, if_neg (lit_ne (by decide)), hid, Option.bind_some, h.found]
  dsimp only
  rw [h.row, h.remembered_eq]
  dsimp only
  rw [reduceItem, if_neg (fun hc => absurd hc.1 (lit_ne (by decide))), if_pos rfl, reduceWorkingMemory, htext]
  split
  · rename_i hnone
    cases hnone
  · rename_i hnil
    exact absurd (Option.some.inj hnil) h.nonempty
  · rename_i text _ hsome
    cases hsome
    rw [if_neg (Nat.not_le.mpr h.room), hupdated]
    rfl

end Checked

theorem append_applied {file : Option Bytes} {payload out : Bytes} {ms : Int} {outLen : Nat} (hms : InLong ms)
    (h : normalizeMemoryAppend (loadStore file) payload ms outLen = some out) :
    rowsToWrite file (lit "task_working_memory_appended") out = some (remembered (loadStore file) payload ms) := by
  obtain ⟨id, idx, t, incoming, hchecked⟩ := normalizeMemoryAppend_checked h
  obtain ⟨htop, hreduced⟩ := hchecked.reduced hms
  rw [rowsToWrite, if_pos (by rw [lit_ofList]; decide), htop]
  exact hreduced

/-- The second stage accepts what the first one built exactly when the texts of the rows, the joined memory among
them, fit their mirrors. -/
theorem append_accepted_iff {file : Option Bytes} {payload out : Bytes} {ms : Int} {outLen : Nat} (hms : InLong ms)
    (h : normalizeMemoryAppend (loadStore file) payload ms outLen = some out)
    (hfits : FitsFile (remembered (loadStore file) payload ms)) :
    rtTaskApplyEvent file (lit "task_working_memory_appended") out =
        (some (storeText (remembered (loadStore file) payload ms)), true) ↔
      ∀ t ∈ remembered (loadStore file) payload ms, Escapable t := by
  rw [rtTaskApplyEvent, append_applied hms h, Option.bind_some]
  cases hwrite : writeStore (remembered (loadStore file) payload ms) with
  | none =>
    refine iff_of_false (by simp) fun hesc => ?_
    rw [(writeStore_text _ _).mpr ⟨hesc, hfits, rfl⟩] at hwrite
    cases hwrite
  | some text =>
    obtain ⟨hesc, -, rfl⟩ := (writeStore_text _ _).mp hwrite
    exact iff_of_true rfl hesc

/-- What the next load finds of an applied append is the rows with the text. -/
theorem append_loads {file : Option Bytes} {payload out : Bytes} {ms : Int} {outLen : Nat} (hms : InLong ms)
    (hfile : ∀ t ∈ loadStore file, Printable t)
    (h : normalizeMemoryAppend (loadStore file) payload ms outLen = some out)
    (hfits : FitsFile (remembered (loadStore file) payload ms))
    (hesc : ∀ t ∈ remembered (loadStore file) payload ms, Escapable t) :
    loadStore (some (storeText (remembered (loadStore file) payload ms))) =
      (remembered (loadStore file) payload ms).map shown := by
  obtain ⟨id, idx, t, incoming, hchecked⟩ := normalizeMemoryAppend_checked h
  have ht : Printable t := hfile t (List.mem_of_getElem? hchecked.row)
  have hmemory : TextField taskWorkingMemoryMax (appendMemory t.workingMemory incoming) :=
    ⟨appendMemory_nulFree ht.workingMemory.nulFree (getString_text hchecked.text).nulFree, hchecked.room⟩
  have hjoined : Printable { t with workingMemory := appendMemory t.workingMemory incoming } :=
    { ht with workingMemory := hmemory }
  have hnew := stampUpdated_printable hjoined hms
  refine (loadStore_writeStore (fun u hu => ?_) ?_ ((writeStore_text _ _).mpr ⟨hesc, hfits, rfl⟩)).2
  · rw [hchecked.remembered_eq] at hu
    rcases List.mem_or_eq_of_mem_set hu with hu | rfl
    · exact hfile u hu
    · exact hnew
  · rw [hchecked.remembered_eq, List.length_set]
    exact loadStore_length file

/-! ## Between the appends -/

theorem stampUpdated_memory (t : TaskItem) (updated : Int) : (stampUpdated t updated).workingMemory = t.workingMemory := by
  rw [stampUpdated]
  split <;> rfl

theorem reduceState_memory {t t' : TaskItem} {type payload : Bytes} (h : reduceState t type payload = some t') :
    t'.workingMemory = t.workingMemory := by
  rw [reduceState] at h
  split at h
  · rw [reduceUpdated] at h
    dsimp only at h
    split at h
    · cases h
    · split at h
      · cases h
        rfl
      · split at h
        · cases h
          rfl
        · cases h
  · split at h
    · cases h
    · split at h
      · cases h
        rfl
      · cases h

theorem reduceArtifacts_memory {t t' : TaskItem} {payload : JsonRef} (h : reduceArtifacts t payload = some t') :
    t'.workingMemory = t.workingMemory := by
  rw [reduceArtifacts] at h
  split at h
  · cases h
    rfl
  · split at h
    · obtain ⟨a, -, rfl⟩ := Option.map_eq_some_iff.mp h
      rfl
    · cases h

theorem appendMemory_grows (memory incoming : Bytes) : memory <+: appendMemory memory incoming := by
  rw [appendMemory]
  split
  · rename_i h
    rw [h]
    exact List.nil_prefix
  · rw [List.append_assoc]
    exact List.prefix_append _ _

theorem reduceWorkingMemory_grows {t t' : TaskItem} {payload : JsonRef} (h : reduceWorkingMemory t payload = some t') :
    t.workingMemory <+: t'.workingMemory := by
  rw [reduceWorkingMemory] at h
  split at h
  · cases h
  · cases h
  · split at h
    · cases h
    · dsimp only at h
      split at h
      · cases h
        rw [stampUpdated_memory]
        exact appendMemory_grows _ _
      · cases h
        exact appendMemory_grows _ _

/-- A memory afterwards: grown by an append, the same after anything else. -/
structure Grows (appends : Prop) (memory memory' : Bytes) : Prop where
  grown : memory <+: memory'
  kept : ¬ appends → memory' = memory

theorem Grows.refl (appends : Prop) (memory : Bytes) : Grows appends memory memory := ⟨List.prefix_refl _, fun _ => rfl⟩

theorem Grows.trans {p q : Prop} {a b c : Bytes} (h : Grows p a b) (h' : Grows q b c) : Grows (p ∨ q) a c :=
  ⟨h.grown.trans h'.grown, fun hno => (h'.kept fun hq => hno (.inr hq)).trans (h.kept fun hp => hno (.inl hp))⟩

/-- One row under any event that names it. -/
theorem reduceItem_memory {t t' : TaskItem} {type payload : Bytes} (h : reduceItem t type payload = some t') :
    Grows (type = lit "task_working_memory_appended") t.workingMemory t'.workingMemory := by
  rw [reduceItem] at h
  split at h
  · cases h
  split at h
  · rename_i htype
    exact ⟨reduceWorkingMemory_grows h, fun hno => absurd htype hno⟩
  split at h
  · cases h
  split at h
  · cases h
  · split at h
    · cases h
    · rename_i u hstate
      have hsame : t'.workingMemory = t.workingMemory := by
        rw [reduceArtifacts_memory h, reduceState_memory hstate, stampUpdated_memory]
      exact ⟨hsame ▸ List.prefix_refl _, fun _ => hsame⟩

/-! ## Runs -/

/-- A task file whose rows print, under an id each. -/
structure Sound (file : Option Bytes) : Prop where
  printable : ∀ t ∈ loadStore file, Printable t
  distinct : DistinctIds (loadStore file)

/-- The event gives the id to a new task: the store has no such task once it has made room. -/
def Reuses (id : Bytes) (file : Option Bytes) (event : Bytes × Bytes) : Prop :=
  event.1 = lit "task_created" ∧ ∃ payload kept, jsonRefTopObject event.2 = some payload ∧
    jsonRefObjectGetString payload (lit "task_id") rtSmall = some id ∧ keptRows (loadStore file) = some kept ∧
      taskIndexOf kept id = none

/-- The file after the events, each refused one leaving it as it was. -/
def replay (file : Option Bytes) (events : List (Bytes × Bytes)) : Option Bytes :=
  events.foldl (fun file event => (rtTaskApplyEvent file event.1 event.2).1) file

/-- Every file of the run loads back, and none of its events gives the id away. -/
def Keeps (id : Bytes) : Option Bytes → List (Bytes × Bytes) → Prop
  | _, [] => True
  | file, event :: events => stepFits file event.1 event.2 = true ∧ ¬ Reuses id file event ∧
      Keeps id (rtTaskApplyEvent file event.1 event.2).1 events

/-- A step leaves the file as it was, or it puts printable rows there. -/
theorem step_loads {file : Option Bytes} {type payloadJson : Bytes} (hfile : ∀ t ∈ loadStore file, Printable t)
    (hfit : stepFits file type payloadJson = true) :
    (rtTaskApplyEvent file type payloadJson).1 = file ∨ ∃ payload rows, jsonRefTopObject payloadJson = some payload ∧
      reduceTasks (loadStore file) type payload = some rows ∧ (∀ t ∈ rows, Printable t) ∧
        loadStore (rtTaskApplyEvent file type payloadJson).1 = rows.map shown := by
  rw [rtTaskApplyEvent]
  cases hb : (rowsToWrite file type payloadJson).bind writeStore with
  | none => exact .inl rfl
  | some text =>
    obtain ⟨rows, hrows, hwrite⟩ := Option.bind_eq_some_iff.mp hb
    obtain ⟨hprint, hcount, -⟩ := rowsToWrite_printable hfile hfit hrows
    rw [rowsToWrite] at hrows
    split at hrows
    · split at hrows
      · cases hrows
      · rename_i payload hpayload
        exact .inr ⟨payload, rows, hpayload, hrows, hprint, (loadStore_writeStore hprint hcount hwrite).2⟩
    · cases hrows

theorem distinct_shown (rows : List TaskItem) : (rows.map shown).map TaskItem.taskId = rows.map TaskItem.taskId := by
  rw [List.map_map]
  rfl

theorem sound_step {file : Option Bytes} {type payloadJson : Bytes} (h : Sound file)
    (hfit : stepFits file type payloadJson = true) : Sound (rtTaskApplyEvent file type payloadJson).1 := by
  rcases step_loads h.printable hfit with hsame | ⟨payload, rows, -, hrows, hprint, hload⟩
  · rw [hsame]
    exact h
  · refine ⟨fun t ht => ?_, ?_⟩
    · rw [hload] at ht
      obtain ⟨u, hu, rfl⟩ := List.mem_map.mp ht
      exact shown_printable (hprint u hu)
    · rw [hload, DistinctIds, distinct_shown]
      exact (reduceTasks_change hrows).distinct h.distinct

/-- A new row stands under the id only where the event gives the id away. -/
theorem created_other {file : Option Bytes} {payloadJson : Bytes} {payload : JsonRef} {kept : List TaskItem}
    {slot t : TaskItem} {id : Bytes} (hpayload : jsonRefTopObject payloadJson = some payload)
    (hkept : keptRows (loadStore file) = some kept) (hnew : createItem slot kept payload = some t)
    (hfresh : ¬ Reuses id file (lit "task_created", payloadJson)) : t.taskId ≠ id := by
  rintro rfl
  exact hfresh ⟨rfl, payload, kept, hpayload, (createItem_new hnew).id, hkept, (createItem_new hnew).fresh⟩

/-- The row under an id after a step comes from a row under it before. -/
theorem step_memory {file : Option Bytes} {type payloadJson id : Bytes} {t' : TaskItem} (hfile : ∀ t ∈ loadStore file, Printable t)
    (hfit : stepFits file type payloadJson = true) (hfresh : ¬ Reuses id file (type, payloadJson))
    (ht' : t' ∈ loadStore (rtTaskApplyEvent file type payloadJson).1) (hid : t'.taskId = id) :
    ∃ t ∈ loadStore file, t.taskId = id ∧
      Grows (type = lit "task_working_memory_appended") t.workingMemory t'.workingMemory := by
  rcases step_loads hfile hfit with hsame | ⟨payload, rows, hpayload, hrows, -, hload⟩
  · rw [hsame] at ht'
    exact ⟨t', ht', hid, .refl _ _⟩
  · rw [hload] at ht'
    obtain ⟨u, hu, rfl⟩ := List.mem_map.mp ht'
    have hkept : ∀ t, t ∈ loadStore file → t = u → ∃ t ∈ loadStore file, t.taskId = id ∧
        Grows (type = lit "task_working_memory_appended") t.workingMemory (shown u).workingMemory := by
      rintro t ht rfl
      exact ⟨t, ht, hid, .refl _ _⟩
    cases reduceTasks_change hrows with
    | created hroom hnew htype =>
      subst htype
      have hall : keptRows (loadStore file) = some (loadStore file) := by rw [keptRows, if_neg (Nat.not_le.mpr hroom)]
      rcases List.mem_append.mp hu with hu | hu
      · exact hkept u hu rfl
      · rw [List.mem_singleton] at hu
        exact absurd (hu ▸ hid) (created_other hpayload hall hnew hfresh)
    | @recycled hfull i _ _ hfirst _ hnew htype =>
      subst htype
      have hone : keptRows (loadStore file) = some ((loadStore file).eraseIdx i) := by
        rw [keptRows, if_pos hfull, taskEvictOldestTerminal, hfirst]
      rcases List.mem_append.mp hu with hu | hu
      · exact hkept u (List.mem_of_mem_eraseIdx hu) rfl
      · rw [List.mem_singleton] at hu
        exact absurd (hu ▸ hid) (created_other hpayload hone hnew hfresh)
    | @changed _ i t _ hrow _ _ hitem =>
      rcases List.mem_or_eq_of_mem_set hu with hu | rfl
      · exact hkept u hu rfl
      · have hgrows : Grows (type = lit "task_working_memory_appended") t.workingMemory u.workingMemory :=
          reduceItem_memory hitem
        exact ⟨t, List.mem_of_getElem? hrow, (reduceItem_change hitem).1.id.symm.trans hid, hgrows⟩

/-- Over a run: every row under the id has grown from what stood there, by appends alone. -/
theorem replay_memory {id memory : Bytes} {p : Prop} (events : List (Bytes × Bytes)) {file : Option Bytes} (hsound : Sound file)
    (hkeeps : Keeps id file events) (hnow : ∀ t ∈ loadStore file, t.taskId = id → Grows p memory t.workingMemory) :
    ∀ t ∈ loadStore (replay file events), t.taskId = id →
      Grows (p ∨ ∃ event ∈ events, event.1 = lit "task_working_memory_appended") memory t.workingMemory := by
  induction events generalizing file p with
  | nil =>
    intro t ht hid
    exact ⟨(hnow t ht hid).grown, fun hno => (hnow t ht hid).kept fun hp => hno (.inl hp)⟩
  | cons event events ih =>
    obtain ⟨hfit, hfresh, hrest⟩ := hkeeps
    intro t ht hid
    have hstep : ∀ u ∈ loadStore (rtTaskApplyEvent file event.1 event.2).1, u.taskId = id →
        Grows (p ∨ event.1 = lit "task_working_memory_appended") memory u.workingMemory := by
      intro u hu huid
      obtain ⟨v, hv, hvid, hgrows⟩ := step_memory hsound.printable hfit hfresh hu huid
      exact (hnow v hv hvid).trans hgrows
    have hrun := ih (sound_step hsound hfit) hrest hstep t ht hid
    refine ⟨hrun.grown, fun hno => hrun.kept ?_⟩
    rintro ((hp | hev) | ⟨e, he, heq⟩)
    · exact hno (.inl hp)
    · exact hno (.inr ⟨event, List.mem_cons_self, hev⟩)
    · exact hno (.inr ⟨e, List.mem_cons_of_mem _ he, heq⟩)

theorem distinct_eq {rows : List TaskItem} (h : DistinctIds rows) {t u : TaskItem} (ht : t ∈ rows) (hu : u ∈ rows)
    (hid : t.taskId ≠ []) (heq : u.taskId = t.taskId) : u = t := by
  obtain ⟨i, hi⟩ := List.getElem?_of_mem ht
  obtain ⟨j, hj⟩ := List.getElem?_of_mem hu
  have hij : i = j := h.unique hi hj heq.symm hid
  subst hij
  rw [hi] at hj
  exact (Option.some.inj hj).symm

/-- The two stages agree on an append exactly when the texts of the rows, the joined memory among them, fit their
mirrors, and the next load finds the text appended. Over every run whose files load back and that does not give the id
of the task away, its memory stays a prefix of its later one, and the same without an append. -/
theorem working_memory_append_only (file : Option Bytes) :
    (∀ payload ms outLen out, InLong ms → normalizeMemoryAppend (loadStore file) payload ms outLen = some out →
      FitsFile (remembered (loadStore file) payload ms) →
      (rtTaskApplyEvent file (lit "task_working_memory_appended") out =
          (some (storeText (remembered (loadStore file) payload ms)), true) ↔
        ∀ t ∈ remembered (loadStore file) payload ms, Escapable t) ∧
      ((∀ t ∈ loadStore file, Printable t) → (∀ t ∈ remembered (loadStore file) payload ms, Escapable t) →
        loadStore (some (storeText (remembered (loadStore file) payload ms))) =
          (remembered (loadStore file) payload ms).map shown)) ∧
    ∀ events, Sound file → ∀ t ∈ loadStore file, t.taskId ≠ [] → Keeps t.taskId file events →
      ∀ t' ∈ loadStore (replay file events), t'.taskId = t.taskId → t.workingMemory <+: t'.workingMemory ∧
        ((∀ event ∈ events, event.1 ≠ lit "task_working_memory_appended") → t'.workingMemory = t.workingMemory) := by
  refine ⟨fun payload ms outLen out hms hout hfits => ⟨append_accepted_iff hms hout hfits, fun hprint hesc =>
    append_loads hms hprint hout hfits hesc⟩, fun events hsound t ht hid hkeeps t' ht' heq => ?_⟩
  have hnow : ∀ u ∈ loadStore file, u.taskId = t.taskId → Grows False t.workingMemory u.workingMemory := by
    intro u hu huid
    rw [distinct_eq hsound.distinct ht hu hid huid]
    exact .refl _ _
  have hgrows := replay_memory events hsound hkeeps hnow t' ht' heq
  refine ⟨hgrows.grown, fun hno => hgrows.kept ?_⟩
  rintro (hfalse | ⟨event, hevent, htype⟩)
  · exact hfalse
  · exact hno event hevent htype

/-! ## Control octets -/

/-- A task with a memory and little else. -/
def controlRow (memory : Bytes) : TaskItem :=
  { taskId := lit "t1", contextId := lit "chat:a", kind := lit "work", state := lit "open", input := lit "null", work := []
    doneWhen := [], affairId := [], delegate := [], external := lit "null", artifacts := lit "[]", workingMemory := memory
    createdEventId := [], createdMs := 0, updatedMs := 0, workRev := 0 }

/-- The payload that appends a text to it. -/
def controlMembers (incoming : Bytes) : List (Bytes × Bytes) :=
  [(lit "task_id", quoted (lit "t1")), (lit "working_memory", quoted (escaped incoming))]

theorem controlMembers_written (incoming : Bytes) : WrittenMembers (controlMembers incoming) :=
  .key (by decide) (.text (lit "t1")) (.key (by decide) (.text _) .nil)

theorem controlRow_printable {memory : Bytes} (h : TextField taskWorkingMemoryMax memory) : Printable (controlRow memory) :=
  have hempty : Printable (controlRow []) :=
    { taskId := ⟨.of_all (by decide), by decide⟩
      contextId := ⟨.of_all (by decide), by decide⟩
      kind := ⟨.of_all (by decide), by decide⟩
      kindNonempty := by decide
      stateOk := by decide
      input := .inr (jsonField_null (by decide))
      work := ⟨.of_all (by decide), by decide⟩
      doneWhen := ⟨.of_all (by decide), by decide⟩
      affairId := ⟨.of_all (by decide), by decide⟩
      delegate := ⟨.of_all (by decide), by decide⟩
      external := .inr (jsonField_null (by decide))
      artifacts := .inr ⟨jsonField_emptyArray (by decide), rfl⟩
      workingMemory := ⟨.of_all (by decide), by decide⟩
      createdEventId := ⟨.of_all (by decide), by decide⟩
      createdMs := zero_inLong
      updatedMs := zero_inLong
      revNonneg := Int.le_refl 0
      revBound := by decide
      revOfWork := fun hwork => absurd rfl hwork }
  { hempty with workingMemory := h }

theorem controlRow_escapable {memory : Bytes} (h : NulFree memory) :
    Escapable (controlRow memory) ↔ (escaped memory).length < taskWorkingMemoryMax * 2 := by
  have hid : mirror rtMed (lit "t1") = some (lit "t1") := by decide
  have hctx : mirror rtMed (lit "chat:a") = some (lit "chat:a") := by rw [lit_ofList]; decide
  have hkind : mirror rtMed (lit "work") = some (lit "work") := by rw [lit_ofList]; decide
  have hstate : mirror rtMed (lit "open") = some (lit "open") := by rw [lit_ofList]; decide
  have hnil : ∀ cap, 0 < cap → mirror cap [] = some [] := fun cap hcap => mirror_plain (by simp) hcap
  have hwork : (controlRow memory).kind ≠ [] := by
    show lit "work" ≠ []
    decide
  rw [Escapable, escapeItem, if_neg hwork]
  simp only [controlRow, hid, hctx, hkind, hstate, hnil _ (show 0 < rtMed by decide),
    hnil _ (show 0 < taskWorkMax * 2 by decide), hnil _ (show 0 < taskDoneMax * 2 by decide), Option.bind_eq_bind,
    Option.bind_some, mirror_eq h]
  split
  · rename_i hfit
    exact iff_of_true rfl hfit
  · rename_i hfit
    exact iff_of_false (by simp) hfit

theorem quoted_length (s : Bytes) : (quoted s).length = s.length + 2 := by
  rw [quoted, List.length_cons, List.length_append]
  rfl

/-- The state of the row grows with the escape of the memory. -/
theorem controlRow_state {memory : Bytes} (h : NulFree memory) :
    (objText (stateMembers (controlRow memory) (escapes (controlRow memory)))).length =
      (objText (stateMembers (controlRow []) (escapes (controlRow [])))).length + (escaped memory).length := by
  have hnil : escaped (cstr []) = [] := rfl
  rw [objText_length (by simp [stateMembers]), objText_length (by simp [stateMembers])]
  simp only [stateMembers, escapes, controlRow, cstr_eq_self h, hnil, List.map_append, List.sum_append, List.map_cons,
    List.sum_cons, quoted_length, List.length_nil]
  omega

/-- So does its file. -/
theorem controlRow_length {memory : Bytes} (h : NulFree memory) :
    (storeText [controlRow memory]).length = 249 + (escaped memory).length := by
  have hclosed : (storeText [controlRow []]).length = 249 := by decide +kernel
  have hkind : ∀ m, (escapes (controlRow m)).kind = lit "work" := fun _ => rfl
  rw [← hclosed]
  simp only [storeText, itemsText, itemText, List.length_append, if_true, List.length_nil]
  rw [objText_length (by simp [rowMembers]), objText_length (by simp [rowMembers])]
  simp only [rowMembers, List.map_cons, List.sum_cons, controlRow_state h, hkind]
  simp only [escapes, controlRow]
  omega

section Control
variable {memory incoming : Bytes}

/-- The task alone in its file. -/
theorem control_loads (h : TextField taskWorkingMemoryMax memory) (hesc : (escaped memory).length < taskWorkingMemoryMax * 2) :
    writeStore [controlRow memory] = some (storeText [controlRow memory]) ∧
      loadStore (some (storeText [controlRow memory])) = [controlRow memory] := by
  have hprint : ∀ t ∈ [controlRow memory], Printable t := by
    intro t ht
    exact List.mem_singleton.mp ht ▸ controlRow_printable h
  have hwrite : writeStore [controlRow memory] = some (storeText [controlRow memory]) := by
    refine (writeStore_text _ _).mpr ⟨fun t ht => ?_, ?_, rfl⟩
    · exact List.mem_singleton.mp ht ▸ (controlRow_escapable h.nulFree).mpr hesc
    · have hcap : taskWorkingMemoryMax * 2 = 8192 := rfl
      have hxl : rtXl = 65536 := rfl
      rw [FitsFile, controlRow_length h.nulFree]
      omega
  exact ⟨hwrite, (loadStore_writeStore hprint (Nat.succ_le_succ (Nat.zero_le 31)) hwrite).2⟩

/-- The first stage sees its two members in the payload and no other. -/
theorem control_admitted (incoming : Bytes) : payloadHasTaskRuntimeKey (objText (controlMembers incoming)) true = false ∧
    payloadIsWorkingMemoryAppend (objText (controlMembers incoming)) = true := by
  have hw := controlMembers_written incoming
  constructor
  · rw [payloadHasTaskRuntimeKey, OwnedKeys.iterFinds_eq hw.objText (by decide) _ _ _
      (Nat.le_trans hw.objText.count_le (Nat.le_add_right _ _)), List.drop_zero, List.any_eq_false]
    intro m hm
    have hm := (List.takeWhile_prefix _).subset hm
    rw [controlMembers, List.mem_cons, List.mem_singleton] at hm
    have hid : (jsonRefStringCopy 256 (quoted (lit "task_id"))).any (taskRuntimeKey true) = false := by decide +kernel
    have htext : (jsonRefStringCopy 256 (quoted (lit "working_memory"))).any (taskRuntimeKey true) = false := by decide +kernel
    rcases hm with rfl | rfl
    · exact ne_true_of_eq_false hid
    · exact ne_true_of_eq_false htext
  · have hid : jsonRefStringCopy rtSmall (quoted (lit "task_id")) = some (lit "task_id") := by decide +kernel
    have htext : jsonRefStringCopy rtSmall (quoted (lit "working_memory")) = some (lit "working_memory") := by decide +kernel
    have hstring : jsonRefInferType (quoted (escaped incoming)) = .string := rfl
    have hne : lit "working_memory" ≠ lit "task_id" := lit_ne (by decide)
    rw [payloadIsWorkingMemoryAppend, IteratedMembers.objectItems_seen hw.objText]
    simp only [controlMembers, IteratedMembers.seen, List.takeWhile_cons, CallEvents.keyOf, hid, htext, Option.isSome_some, if_true,
      List.takeWhile_nil, List.map_cons, List.map_nil, CallEvents.itemOf, Option.getD_some, appendKeysLoop, if_neg hne, hstring,
      true_and]

example : storeText [] = lit "\x7b\"tasks\":[]\x7d\n" := by decide +kernel

theorem control_named (incoming : Bytes) :
    jsonRefObjectGetString (objText (controlMembers incoming)) (lit "task_id") rtSmall = some (lit "t1") := by
  have hget : assoc (lit "task_id") (controlMembers incoming) = some (quoted (lit "t1")) := rfl
  rw [jsonRefObjectGetString, (controlMembers_written incoming).get, hget, Option.bind_some]
  decide +kernel

theorem control_text (h : TextField taskWorkingMemoryMax incoming) :
    jsonRefObjectGetString (objText (controlMembers incoming)) (lit "working_memory") taskWorkingMemoryMax = some incoming := by
  rw [jsonRefObjectGetString, (controlMembers_written incoming).get]
  exact h.copy

theorem control_found (memory : Bytes) : taskIndexOf [controlRow memory] (lit "t1") = some 0 := by
  rw [taskIndexOf, if_neg (by decide)]
  rfl

/-- The first stage takes a text that fits behind the memory. -/
theorem control_normalized (h : TextField taskWorkingMemoryMax incoming) (hne : incoming ≠ [])
    (hesc : (escaped incoming).length < taskWorkingMemoryMax * 2) (hmemory : memory.length < taskWorkingMemoryMax)
    (hroom : (appendMemory memory incoming).length < taskWorkingMemoryMax) :
    normalizeMemoryAppend [controlRow memory] (objText (controlMembers incoming)) 0 rtXl =
      some (objText (appendMembers (lit "t1") (escaped incoming) 0)) := by
  have hw := controlMembers_written incoming
  obtain ⟨hkeys, hmembers⟩ := control_admitted incoming
  have hescaped : mirror rtMed (lit "t1") = some (lit "t1") := by rw [lit_ofList]; decide
  have hcurrent : rtTaskWorkingMemoryOf [controlRow memory] (lit "t1") taskWorkingMemoryMax = some memory := by
    rw [rtTaskWorkingMemoryOf, control_found]
    exact if_neg (Nat.not_le.mpr hmemory)
  have hsmall : (objText (appendMembers (lit "t1") (escaped incoming) 0)).length < rtXl := by
    have hcap : taskWorkingMemoryMax * 2 = 8192 := rfl
    have hxl : rtXl = 65536 := rfl
    have hname : (lit "task_id").length + (quoted (lit "t1")).length = 11 := by decide +kernel
    have hkey : (lit "working_memory").length = 14 := by decide +kernel
    have hclock : (lit "updated_ms").length + (decInt 0).length = 11 := by decide +kernel
    rw [objText_length (by simp [appendMembers])]
    simp only [appendMembers, List.map_cons, List.sum_cons, List.map_nil, List.sum_nil, quoted_length (escaped incoming)]
    omega
  rw [appendMemory_length] at hroom
  rw [normalizeMemoryAppend]
  simp only [ObjText.inferType hw.objText, hkeys, control_named, control_found, hescaped, hmembers, control_text h, hcurrent, mirror_eq h.nulFree,
    if_pos hesc, guard, if_true, hroom, hne, Option.isSome_some, if_neg (Nat.not_le.mpr hsmall), Option.bind_eq_bind,
    Option.bind_some, Option.pure_def, ne_eq, not_false_eq_true]

theorem control_remembered (memory : Bytes) (h : TextField taskWorkingMemoryMax incoming) :
    remembered [controlRow memory] (objText (controlMembers incoming)) 0 = [controlRow (appendMemory memory incoming)] := by
  rw [remembered, control_named, Option.bind_some, control_found, control_text h]
  rfl

end Control

theorem control_length (n : Nat) : (escaped (List.replicate n 1)).length = 6 * n := by
  induction n with
  | zero => rfl
  | succ n ih =>
    have hone : (escapeByte 1).length = 6 := rfl
    rw [List.replicate_succ, escaped, List.flatMap_cons, List.length_append, ← escaped, ih]
    omega

theorem control_field {n : Nat} (h : n < taskWorkingMemoryMax) : TextField taskWorkingMemoryMax (List.replicate n 1) :=
  ⟨fun c hc => (List.mem_replicate.mp hc).2 ▸ by decide, by rwa [List.length_replicate]⟩

/-- Two runs of control octets, each of which fits its mirror, and no longer when joined. -/
theorem control_refused {n : Nat} (hlo : 683 ≤ n) (hhi : n ≤ 1365) : ∃ file payload out, Sound file ∧ InLong 0 ∧
    normalizeMemoryAppend (loadStore file) payload 0 rtXl = some out ∧ FitsFile (remembered (loadStore file) payload 0) ∧
      rtTaskApplyEvent file (lit "task_working_memory_appended") out = (file, false) := by
  have hcap : taskWorkingMemoryMax = 4096 := rfl
  have hxl : rtXl = 65536 := rfl
  have hfield := control_field (n := n) (by omega)
  have hesc : (escaped (List.replicate n 1)).length < taskWorkingMemoryMax * 2 := by
    rw [control_length]
    omega
  obtain ⟨hwrite, hload⟩ := control_loads hfield hesc
  have hne : List.replicate n (1 : Byte) ≠ [] := by
    intro hnil
    rw [List.replicate_eq_nil_iff] at hnil
    omega
  have hjoined : (appendMemory (List.replicate n 1) (List.replicate n 1)).length = 2 * n + 1 := by
    rw [appendMemory_length, if_neg hne, List.length_replicate]
    omega
  have hlong : (escaped (appendMemory (List.replicate n 1) (List.replicate n 1))).length = 12 * n + 2 := by
    have hline : (escaped (lit "\n")).length = 2 := by decide
    rw [appendMemory, if_neg hne, escaped_append, escaped_append, List.length_append, List.length_append, hline, control_length]
    omega
  have hnul : NulFree (appendMemory (List.replicate n 1) (List.replicate n 1)) := appendMemory_nulFree hfield.nulFree hfield.nulFree
  have hout := control_normalized hfield hne hesc hfield.fits (by omega)
  refine ⟨some (storeText [controlRow (List.replicate n 1)]), _, _, ⟨?_, ?_⟩, zero_inLong, by rw [hload]; exact hout, ?_, ?_⟩
  · rw [hload]
    intro t ht
    exact List.mem_singleton.mp ht ▸ controlRow_printable hfield
  · rw [hload]
    exact List.pairwise_singleton _ _
  · rw [hload, control_remembered _ hfield, FitsFile, controlRow_length hnul]
    omega
  · rw [rtTaskApplyEvent, append_applied zero_inLong (by rw [hload]; exact hout), hload, control_remembered _ hfield,
      Option.bind_some]
    cases hstore : writeStore [controlRow (appendMemory (List.replicate n 1) (List.replicate n 1))] with
    | none => rfl
    | some text =>
      have hfit := (controlRow_escapable hnul).mp (((writeStore_text _ _).mp hstore).1 _ (List.mem_singleton.mpr rfl))
      omega

/-- 1300 control octets behind 1300 others: the event is built and refused. -/
theorem control_append_refused : ∃ file payload out, Sound file ∧ InLong 0 ∧
    normalizeMemoryAppend (loadStore file) payload 0 rtXl = some out ∧ FitsFile (remembered (loadStore file) payload 0) ∧
      rtTaskApplyEvent file (lit "task_working_memory_appended") out = (file, false) :=
  control_refused (show 683 ≤ 1300 by decide) (by decide)

end Floofclaw.Guarantees.TaskMemories
