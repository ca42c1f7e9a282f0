import Floofclaw.Source.TaskState

/-!
# The task file reads back as it was written

`Printable` is what a row must satisfy for its printed form to be one JSON
object: bounded NUL-free text fields, raw fields that are compact values, 64-bit
counters. Every list of printable rows that `write_store` manages to print is
what `load_store` reads, up to the defaults the writer itself prints for empty
raw fields.
-/

set_option autoImplicit false

namespace Floofclaw.Guarantees.TaskStoreText
open Floofclaw.Lib Floofclaw.Source.Json Floofclaw.Source.TaskState

/-- A compact JSON text that fits its buffer. -/
structure JsonField (cap : Nat) (s : Bytes) : Prop where
  value : IsValue s
  stable : Squeezes s s
  nulFree : NulFree s
  fits : s.length < cap

/-- The representable range of a counter. -/
def InLong (z : Int) : Prop := int64Min ≤ z ∧ z ≤ int64Max

structure Printable (t : TaskItem) : Prop where
  taskId : TextField rtSmall t.taskId
  contextId : TextField rtMed t.contextId
  kind : TextField rtSmall t.kind
  kindNonempty : t.kind ≠ []
  stateOk : taskStateOk t.state = true
  input : t.input = [] ∨ JsonField taskInputMax t.input
  work : TextField taskWorkMax t.work
  doneWhen : TextField taskDoneMax t.doneWhen
  affairId : TextField rtSmall t.affairId
  delegate : TextField rtSmall t.delegate
  external : t.external = [] ∨ JsonField taskExternalMax t.external
  artifacts : t.artifacts = [] ∨ (JsonField taskArtifactsMax t.artifacts ∧ jsonRefInferType t.artifacts = .array)
  workingMemory : TextField taskWorkingMemoryMax t.workingMemory
  createdEventId : TextField rtSmall t.createdEventId
  createdMs : InLong t.createdMs
  updatedMs : InLong t.updatedMs
  revNonneg : 0 ≤ t.workRev
  revBound : t.workRev ≤ int64Max
  revOfWork : t.work ≠ [] → 0 < t.workRev

/-- The row with its empty raw fields as `write_store` prints them. -/
def shown (t : TaskItem) : TaskItem :=
  { t with
    input := rawField t.input (lit "null")
    external := rawField t.external (lit "null")
    artifacts := rawField t.artifacts (lit "[]") }

/-! ## Fields -/

theorem mirror_eq_some {cap : Nat} {field e : Bytes} (hf : NulFree field) (h : mirror cap field = some e) :
    e = escaped field := by
  unfold mirror at h
  split at h
  · rename_i out hout
    simp only [Option.some.injEq] at h
    rw [← h, (jsonEscape_fits hout).1, cstr_eq_self hf]
  · simp at h

/-- The escaped mirrors of a row, when all of them fit. -/
def mirrors (t : TaskItem) : EscapedItem :=
  { tid := escaped t.taskId, ctx := escaped t.contextId, kind := escaped t.kind, state := escaped t.state,
    work := escaped t.work, done := escaped t.doneWhen, workingMemory := escaped t.workingMemory,
    affair := escaped t.affairId, delegate := escaped t.delegate, created := escaped t.createdEventId }

theorem taskStateOk_text {s : Bytes} (h : taskStateOk s = true) : TextField rtSmall s ∧ s ≠ [] := by
  have hall : [lit "open", lit "working", lit "blocked", lit "completed", lit "failed", lit "canceled"].all
      (fun s => s.all (· != 0) && decide (s.length < rtSmall) && !s.isEmpty) = true := by decide +kernel
  have hs := List.all_eq_true.mp hall s (by simpa [taskStateOk] using h)
  simp only [Bool.and_eq_true, decide_eq_true_eq, Bool.not_eq_true', List.isEmpty_eq_false_iff] at hs
  refine ⟨⟨fun c hc => ?_, hs.1.2⟩, hs.2⟩
  simpa using List.all_eq_true.mp hs.1.1 c hc

theorem escapeItem_eq_some {t : TaskItem} (ht : Printable t) {e : EscapedItem} (h : escapeItem t = some e) :
    e = mirrors t := by
  unfold escapeItem at h
  obtain ⟨tid, h1, h⟩ := Option.bind_eq_some_iff.mp h
  obtain ⟨ctx, h2, h⟩ := Option.bind_eq_some_iff.mp h
  obtain ⟨kind, h3, h⟩ := Option.bind_eq_some_iff.mp h
  obtain ⟨state, h4, h⟩ := Option.bind_eq_some_iff.mp h
  obtain ⟨work, h5, h⟩ := Option.bind_eq_some_iff.mp h
  obtain ⟨done, h6, h⟩ := Option.bind_eq_some_iff.mp h
  obtain ⟨wm, h7, h⟩ := Option.bind_eq_some_iff.mp h
  obtain ⟨aff, h8, h⟩ := Option.bind_eq_some_iff.mp h
  obtain ⟨del, h9, h⟩ := Option.bind_eq_some_iff.mp h
  obtain ⟨created, h10, h⟩ := Option.bind_eq_some_iff.mp h
  cases h
  rw [if_neg ht.kindNonempty] at h3
  rw [mirror_eq_some ht.taskId.nulFree h1, mirror_eq_some ht.contextId.nulFree h2,
    mirror_eq_some ht.kind.nulFree h3, mirror_eq_some (taskStateOk_text ht.stateOk).1.nulFree h4,
    mirror_eq_some ht.work.nulFree h5, mirror_eq_some ht.doneWhen.nulFree h6,
    mirror_eq_some ht.workingMemory.nulFree h7, mirror_eq_some ht.affairId.nulFree h8,
    mirror_eq_some ht.delegate.nulFree h9, mirror_eq_some ht.createdEventId.nulFree h10]
  rfl

theorem JsonField.compact {cap : Nat} {s old : Bytes} (hcap : cap ≤ rtLarge) (h : JsonField cap s) :
    valueCompact s cap old = (s, true) := by
  have hraw : jsonRefValueCopy rtLarge s = some s := by
    rw [jsonRefValueCopy, if_neg (by have := h.fits; omega)]
  have hout := jsonCompact_eq h.nulFree (Compacts.of_stable h.value h.stable) cap
  rw [if_pos h.fits] at hout
  simp only [valueCompact, hraw, jsonCompactWrite_of_compact hout]

theorem jsonField_null {cap : Nat} (h : 4 < cap) : JsonField cap (lit "null") :=
  ⟨.null, Squeezes.of_all (by decide), CleanValue.null.nulFree, h⟩

theorem jsonField_emptyArray {cap : Nat} (h : 2 < cap) : JsonField cap (lit "[]") := by
  have hempty : CleanValue (arrText []) := .arrText (by simp)
  exact ⟨.arrEmpty Ws.nil, Squeezes.of_all (by decide), hempty.nulFree, h⟩

theorem JsonField.clean {cap : Nat} {s : Bytes} (h : JsonField cap s) : CleanValue s := ⟨h.value, h.nulFree⟩

/-- A raw field is printed as a compact value. -/
theorem rawField_json {cap : Nat} {s dflt : Bytes} (hd : JsonField cap dflt) (h : s = [] ∨ JsonField cap s) :
    JsonField cap (rawField s dflt) := by
  rcases h with rfl | h
  · exact hd
  · rw [rawField, if_neg (IsValue.ne_nil h.value)]
    exact h

/-! ## One row -/

theorem proseField_clean (field : Bytes) (s : Bytes) : CleanValue (proseField field (escaped s)) := by
  unfold proseField
  split
  · exact .null
  · exact .text s

private theorem optionalMember_written {key : Bytes} (hk : plainKey key = true) (field s : Bytes) :
    WrittenMembers (optionalMember key field (escaped s)) := by
  unfold optionalMember
  split
  · exact .nil
  · exact .cons hk (.text s) .nil

theorem stateMembers_written {t : TaskItem} (ht : Printable t) : WrittenMembers (stateMembers t (mirrors t)) := by
  have hart : CleanValue (rawField t.artifacts (lit "[]")) :=
    (rawField_json (jsonField_emptyArray (by decide)) (ht.artifacts.imp_right And.left)).clean
  have hext : CleanValue (rawField t.external (lit "null")) :=
    (rawField_json (jsonField_null (by decide)) ht.external).clean
  refine .append (.key (by decide) (.text _) <| .key (by decide) (proseField_clean _ _) <|
    .key (by decide) (proseField_clean _ _) <| .key (by decide) (.long _) <|
    .key (by decide) (.text _) <| .key (by decide) hart .nil) ?_
  refine .append (optionalMember_written (plainKey_lit (by decide)) _ _)
    (.append (optionalMember_written (plainKey_lit (by decide)) _ _) ?_)
  exact .key (by decide) hext (.key (by decide) (.long _) .nil)

theorem rowMembers_written {t : TaskItem} (ht : Printable t) : WrittenMembers (rowMembers t (mirrors t)) := by
  have hin : CleanValue (rawField t.input (lit "null")) :=
    (rawField_json (jsonField_null (by decide)) ht.input).clean
  exact .key (by decide) (.text _) <| .key (by decide) (.text _) <|
    .key (by decide) (.text _) <| .key (by decide) hin <| .key (by decide) (.text _) <|
    .key (by decide) (.long _) <| .key (by decide) (.objText (stateMembers_written ht)) .nil

/-- The text of a printable row. -/
def rowText (t : TaskItem) : Bytes := objText (rowMembers t (mirrors t))

theorem rowText_clean {t : TaskItem} (ht : Printable t) : CleanValue (rowText t) :=
  .objText (rowMembers_written ht)

theorem assoc_append (key : Bytes) (ms ms' : List (Bytes × Bytes)) :
    assoc key (ms ++ ms') = (assoc key ms).or (assoc key ms') := by
  induction ms with
  | nil => simp [assoc]
  | cons m ms ih =>
    rw [List.cons_append, assoc, assoc, ih]
    split <;> simp

theorem assoc_optionalMember (key k field e : Bytes) :
    assoc key (optionalMember k field e) = if field ≠ [] ∧ k = key then some (quoted e) else none := by
  unfold optionalMember
  by_cases hf : field = []
  · simp [hf, assoc]
  · simp [hf, assoc]

/-- The part of the `state` members behind the fixed ones. -/
private theorem assoc_stateMembers_tail (t : TaskItem) (e : EscapedItem) {key : Bytes}
    (h : assoc key ((stateMembers t e).take 6) = none) :
    assoc key (stateMembers t e) =
      (if t.affairId ≠ [] ∧ lit "affair_id" = key then some (quoted e.affair) else none).or
        ((if t.delegate ≠ [] ∧ lit "delegate" = key then some (quoted e.delegate) else none).or
          (assoc key [(lit "external", rawField t.external (lit "null")), (lit "updated_ms", decInt t.updatedMs)])) := by
  have htake : (stateMembers t e).take 6 =
      [(lit "status", quoted e.state), (lit "work", proseField t.work e.work),
        (lit "done_when", proseField t.doneWhen e.done), (lit "work_rev", decInt t.workRev),
        (lit "working_memory", quoted e.workingMemory), (lit "artifacts", rawField t.artifacts (lit "[]"))] := rfl
  rw [htake] at h
  rw [stateMembers, assoc_append, h, Option.none_or, assoc_append, assoc_append, assoc_optionalMember,
    assoc_optionalMember]

theorem row_affair (t : TaskItem) : assoc (lit "affair_id") (stateMembers t (mirrors t)) =
    if t.affairId ≠ [] then some (quoted (escaped t.affairId)) else none := by
  rw [assoc_stateMembers_tail t _ rfl]
  by_cases h : t.affairId = []
  · have hd : ¬ (t.delegate ≠ [] ∧ lit "delegate" = lit "affair_id") := fun hc => absurd hc.2 (lit_ne (by decide))
    rw [if_neg (by simp [h]), if_neg hd, if_neg (by simp [h])]
    rfl
  · rw [if_pos ⟨h, rfl⟩, if_pos h]
    rfl

theorem row_delegate (t : TaskItem) : assoc (lit "delegate") (stateMembers t (mirrors t)) =
    if t.delegate ≠ [] then some (quoted (escaped t.delegate)) else none := by
  have ha : ¬ (t.affairId ≠ [] ∧ lit "affair_id" = lit "delegate") := fun hc => absurd hc.2 (lit_ne (by decide))
  rw [assoc_stateMembers_tail t _ rfl, if_neg ha]
  by_cases h : t.delegate = []
  · rw [if_neg (by simp [h]), if_neg (by simp [h])]
    rfl
  · rw [if_pos ⟨h, rfl⟩, if_pos h]
    rfl

private theorem assoc_behind_optionals (t : TaskItem) {key : Bytes}
    (h : assoc key ((stateMembers t (mirrors t)).take 6) = none)
    (ha : lit "affair_id" ≠ key) (hd : lit "delegate" ≠ key) :
    assoc key (stateMembers t (mirrors t)) =
      assoc key [(lit "external", rawField t.external (lit "null")), (lit "updated_ms", decInt t.updatedMs)] := by
  rw [assoc_stateMembers_tail t _ h, if_neg (fun hc => ha hc.2), if_neg (fun hc => hd hc.2)]
  rfl

section Row
variable {t : TaskItem} (ht : Printable t)
include ht

theorem row_get (key : Bytes) : jsonRefObjectGet (rowText t) key = assoc key (rowMembers t (mirrors t)) :=
  (rowMembers_written ht).get key

theorem state_get (key : Bytes) :
    jsonRefObjectGet (objText (stateMembers t (mirrors t))) key = assoc key (stateMembers t (mirrors t)) :=
  (stateMembers_written ht).get key

theorem row_state : jsonRefObjectGetObject (rowText t) (lit "state") = some (objText (stateMembers t (mirrors t))) := by
  have hget : assoc (lit "state") (rowMembers t (mirrors t)) = some (objText (stateMembers t (mirrors t))) := rfl
  rw [jsonRefObjectGetObject, row_get ht, hget, Option.filter_some,
    if_pos (by simpa using ObjText.inferType (stateMembers_written ht).objText)]

/-- A text member of the `state` object is read back. -/
theorem row_stateString {key s : Bytes} {cap : Nat} (hs : TextField cap s)
    (hget : assoc key (stateMembers t (mirrors t)) = some (quoted (escaped s))) :
    rtTaskJsonStateString (rowText t) key cap = some s := by
  have hcopy : jsonRefObjectGetString (objText (stateMembers t (mirrors t))) key cap = some s := by
    rw [jsonRefObjectGetString, state_get ht, hget]
    exact hs.copy
  rw [rtTaskJsonStateString, row_state ht]
  simp only [Option.bind_some, hcopy]

/-- A member that is absent or `null` in both places reads as the empty text. -/
theorem row_stateString_none {key : Bytes} {cap : Nat}
    (hget : (assoc key (stateMembers t (mirrors t))).bind (jsonRefStringCopy cap) = none)
    (hrow : assoc key (rowMembers t (mirrors t)) = none) :
    rtTaskJsonStateString (rowText t) key cap = none := by
  have hcopy : jsonRefObjectGetString (objText (stateMembers t (mirrors t))) key cap = none := by
    rw [jsonRefObjectGetString, state_get ht, hget]
  rw [rtTaskJsonStateString, row_state ht]
  simp only [Option.bind_some, hcopy]
  rw [jsonRefObjectGetString, row_get ht, hrow]
  rfl

/-- A prose member: the text, or nothing when it was printed as `null`. -/
theorem row_prose {key field : Bytes} {cap : Nat} (hf : TextField cap field)
    (hget : assoc key (stateMembers t (mirrors t)) = some (proseField field (escaped field)))
    (hrow : assoc key (rowMembers t (mirrors t)) = none) :
    (rtTaskJsonStateString (rowText t) key cap).getD [] = field := by
  by_cases hempty : field = []
  · rw [proseField, if_pos hempty] at hget
    rw [row_stateString_none ht (by rw [hget]; rfl) hrow, hempty]
    rfl
  · rw [proseField, if_neg hempty] at hget
    rw [row_stateString ht hf hget]
    rfl

/-- An optional member: the text, or nothing when it was left out. -/
theorem row_optional {key field : Bytes} {cap : Nat} (hf : TextField cap field)
    (hget : assoc key (stateMembers t (mirrors t)) = if field ≠ [] then some (quoted (escaped field)) else none)
    (hrow : assoc key (rowMembers t (mirrors t)) = none) :
    (rtTaskJsonStateString (rowText t) key cap).getD [] = field := by
  by_cases hempty : field = []
  · rw [if_neg (by simpa using hempty)] at hget
    rw [row_stateString_none ht (by rw [hget]; rfl) hrow, hempty]
    rfl
  · rw [if_pos hempty] at hget
    rw [row_stateString ht hf hget]
    rfl

theorem row_stateLong {key : Bytes} {z : Int} (hz : InLong z)
    (hget : assoc key (stateMembers t (mirrors t)) = some (decInt z)) (old : Int) :
    rtTaskJsonStateLong (rowText t) key old = (z, true) := by
  rw [rtTaskJsonStateLong, row_state ht]
  simp only [jsonRefObjectGetLong, state_get ht, hget, jsonRefGetLong_decInt hz.1 hz.2]

theorem row_stateValue {key v : Bytes} (hget : assoc key (stateMembers t (mirrors t)) = some v) :
    rtTaskJsonStateValue (rowText t) key = some v := by
  rw [rtTaskJsonStateValue, row_state ht]
  simp only [Option.bind_some, state_get ht, hget]

theorem row_stateArray {key v : Bytes} (hget : assoc key (stateMembers t (mirrors t)) = some v)
    (hv : jsonRefInferType v = .array) : rtTaskJsonStateArray (rowText t) key = some v := by
  rw [rtTaskJsonStateArray, row_state ht]
  simp only [Option.bind_some, jsonRefObjectGetArray, state_get ht, hget, Option.filter_some, hv]
  rfl

theorem row_string {key s : Bytes} {cap : Nat} (hs : TextField cap s)
    (hget : assoc key (rowMembers t (mirrors t)) = some (quoted (escaped s))) :
    jsonRefObjectGetString (rowText t) key cap = some s := by
  rw [jsonRefObjectGetString, row_get ht, hget]
  exact hs.copy

theorem row_kind : kindField (rowText t) = t.kind := by
  rw [kindField, row_string ht ht.kind rfl]
  split
  · rename_i h
    cases h
  · rename_i h
    exact absurd (Option.some.inj h) ht.kindNonempty
  · rename_i h
    exact (Option.some.inj h).symm

theorem row_createdEventId : stringField (rowText t) (lit "created_event_id") rtSmall [] = t.createdEventId := by
  have hget : assoc (lit "created_event_id") (rowMembers t (mirrors t)) = some (quoted (escaped t.createdEventId)) :=
    rfl
  obtain ⟨d, hd, hcstr⟩ := jsonRefStringCopy_eq_some.mp ht.createdEventId.copy
  simp only [stringField, row_get ht, hget, hd]
  exact hcstr.symm

theorem row_rev : loadedRev (rowText t) t.work = t.workRev := by
  have hrev : InLong t.workRev := ⟨Int.le_trans (by decide) ht.revNonneg, ht.revBound⟩
  rw [loadedRev, row_stateLong ht hrev rfl]
  by_cases hpos : t.workRev ≤ 0
  · have hzero : t.workRev = 0 := Int.le_antisymm hpos ht.revNonneg
    have hwork : t.work = [] := by
      by_contra hne
      have := ht.revOfWork hne
      omega
    simp [hzero, hwork]
  · simp [hpos]

/-- A printed row loads as the row it was printed from. -/
theorem loadItem_rowText : loadItem (rowText t) = some (shown t) := by
  have hobj : jsonRefInferType (rowText t) = .object := ObjText.inferType (rowMembers_written ht).objText
  have hstate : rtTaskJsonStatus (rowText t) rtSmall = some t.state := by
    have hcopy : jsonRefObjectGetString (objText (stateMembers t (mirrors t))) (lit "status") rtSmall = some t.state := by
      rw [jsonRefObjectGetString, state_get ht]
      exact (taskStateOk_text ht.stateOk).1.copy
    rw [rtTaskJsonStatus, row_state ht]
    simp only [Option.bind_some, hcopy]
  have hwork : (rtTaskJsonStateString (rowText t) (lit "work") taskWorkMax).getD [] = t.work :=
    row_prose ht ht.work rfl rfl
  have hdone : (rtTaskJsonStateString (rowText t) (lit "done_when") taskDoneMax).getD [] = t.doneWhen :=
    row_prose ht ht.doneWhen rfl rfl
  have haff := row_optional ht ht.affairId (row_affair t) rfl
  have hdel := row_optional ht ht.delegate (row_delegate t) rfl
  have hmem : rtTaskJsonStateString (rowText t) (lit "working_memory") taskWorkingMemoryMax = some t.workingMemory :=
    row_stateString ht ht.workingMemory rfl
  have hext : rtTaskJsonStateValue (rowText t) (lit "external") = some (rawField t.external (lit "null")) :=
    row_stateValue ht (by rw [assoc_behind_optionals t rfl (by decide) (by decide)]; rfl)
  have hartField : JsonField taskArtifactsMax (rawField t.artifacts (lit "[]")) :=
    rawField_json (jsonField_emptyArray (by decide)) (ht.artifacts.imp_right And.left)
  have hartType : jsonRefInferType (rawField t.artifacts (lit "[]")) = .array := by
    rcases ht.artifacts with h | h
    · rw [h]
      rfl
    · rw [rawField, if_neg (IsValue.ne_nil h.1.value)]
      exact h.2
  have hart : rtTaskJsonStateArray (rowText t) (lit "artifacts") = some (rawField t.artifacts (lit "[]")) :=
    row_stateArray ht rfl hartType
  have hin : jsonRefObjectGet (rowText t) (lit "input") = some (rawField t.input (lit "null")) := row_get ht _
  have hcreated : (jsonRefObjectGetLong (rowText t) (lit "created_ms") 0) = (t.createdMs, true) := by
    have hget : jsonRefObjectGet (rowText t) (lit "created_ms") = some (decInt t.createdMs) := row_get ht _
    rw [jsonRefObjectGetLong, hget]
    exact jsonRefGetLong_decInt ht.createdMs.1 ht.createdMs.2 0
  have hupdated : rtTaskJsonStateLong (rowText t) (lit "updated_ms") 0 = (t.updatedMs, true) :=
    row_stateLong ht ht.updatedMs
      (by rw [assoc_behind_optionals t rfl (by decide) (by decide)]; rfl) 0
  unfold loadItem
  rw [if_neg (by simpa using hobj), row_string ht ht.taskId rfl, row_string ht ht.contextId rfl, hstate]
  simp only [ht.stateOk, if_true, row_kind ht, hin, hext, hart, compactField, hwork, hdone, haff, hdel, hmem,
    Option.getD_some, row_createdEventId ht, hcreated, hupdated, row_rev ht,
    (rawField_json (jsonField_null (by decide)) ht.input).compact (show taskInputMax ≤ rtLarge by decide),
    (rawField_json (jsonField_null (by decide)) ht.external).compact (show taskExternalMax ≤ rtLarge by decide),
    hartField.compact (show taskArtifactsMax ≤ rtLarge by decide)]
  rfl

end Row

/-! ## The whole file -/

/-- What `write_store` has printed after some rows, given what it had before. -/
private theorem writeItems_eq {items : List TaskItem} (h : ∀ t ∈ items, Printable t) {out out' : Bytes}
    (hw : writeItems false out items = some out') :
    out' = out ++ (items.flatMap fun t => ch ',' :: rowText t) := by
  induction items generalizing out with
  | nil => simpa [writeItems, eq_comm] using hw
  | cons t items ih =>
    rw [writeItems] at hw
    split at hw
    · simp at hw
    · rename_i e he
      have hrow : itemText t e = rowText t := by rw [escapeItem_eq_some (h t (by simp)) he]; rfl
      simp only [hrow, Bool.false_eq_true, if_false] at hw
      split at hw
      · simp at hw
      · split at hw
        · simp at hw
        · rename_i out1 hout1
          rw [ih (fun x hx => h x (List.mem_cons_of_mem _ hx)) hw]
          unfold rtAppendText at hout1
          split at hout1
          · simp at hout1
          · simp only [Option.some.injEq] at hout1
            rw [← hout1]
            simp [lit]

theorem elemsText_cons (v : Bytes) (xs : List Bytes) :
    elemsText (v :: xs) = v ++ xs.flatMap fun x => ch ',' :: x := by
  induction xs generalizing v with
  | nil => simp [elemsText]
  | cons x xs ih =>
    rw [elemsText, ih x]
    simp

/-- The text `write_store` produces: one object around the array of the row texts, and a newline. -/
theorem writeStore_eq {items : List TaskItem} (h : ∀ t ∈ items, Printable t) {text : Bytes}
    (hw : writeStore items = some text) :
    text = objText [(lit "tasks", arrText (items.map rowText))] ++ lit "\n" ∧ text.length < rtXl := by
  unfold writeStore at hw
  obtain ⟨out, hout, happ⟩ := Option.bind_eq_some_iff.mp hw
  have hlen : out.length + (lit "]\x7d\n").length < rtXl ∧ text = out ++ lit "]\x7d\n" := by
    unfold rtAppendText at happ
    split at happ
    · simp at happ
    · simp only [Option.some.injEq] at happ
      exact ⟨by omega, happ.symm⟩
  refine ⟨?_, by rw [hlen.2, List.length_append]; exact hlen.1⟩
  rw [hlen.2]
  cases items with
  | nil =>
    simp only [writeItems, Option.some.injEq] at hout
    rw [← hout]
    simp [objText, membersText, arrText, elemsText, quoted, lit]
  | cons t items =>
    rw [writeItems] at hout
    split at hout
    · simp at hout
    · rename_i e he
      have hrow : itemText t e = rowText t := by rw [escapeItem_eq_some (h t (by simp)) he]; rfl
      simp only [hrow, if_true, List.nil_append] at hout
      split at hout
      · simp at hout
      · split at hout
        · simp at hout
        · rename_i out1 hout1
          unfold rtAppendText at hout1
          split at hout1
          · simp at hout1
          · simp only [Option.some.injEq] at hout1
            rw [writeItems_eq (fun x hx => h x (List.mem_cons_of_mem _ hx)) hout, ← hout1]
            simp only [List.map_cons, objText, membersText, arrText, elemsText_cons, List.flatMap_map]
            simp [quoted, lit]

private theorem filterMap_range_getElem? (xs : List Bytes) :
    (List.range xs.length).filterMap (fun i => xs[i]?) = xs := by
  induction xs with
  | nil => rfl
  | cons x xs ih =>
    have hcomp : (fun i => (x :: xs)[i]?) ∘ Nat.succ = fun i => xs[i]? := by
      funext i
      simp
    rw [List.length_cons, List.range_succ_eq_map, List.filterMap_cons, List.filterMap_map, hcomp, ih]
    rfl

theorem arrayEntries_eq {arr : Bytes} {xs : List Bytes} (h : ArrText arr xs) : arrayEntries arr = xs := by
  unfold arrayEntries
  simp only [jsonRefArraySize_eq h, jsonRefArrayGet_eq h]
  exact filterMap_range_getElem? xs

private theorem filterMap_loadItem {items : List TaskItem} (h : ∀ t ∈ items, Printable t) :
    (items.map rowText).filterMap loadItem = items.map shown := by
  induction items with
  | nil => rfl
  | cons t items ih =>
    rw [List.map_cons, List.filterMap_cons, loadItem_rowText (h t (by simp)),
      ih fun x hx => h x (List.mem_cons_of_mem _ hx), List.map_cons]

/-- Printable rows, once printed, are one JSON object and what the next load reads. -/
theorem loadStore_writeStore {items : List TaskItem} (h : ∀ t ∈ items, Printable t)
    (hcount : items.length ≤ taskMaxItems) {text : Bytes} (hw : writeStore items = some text) :
    (jsonRefTopObject text).isSome = true ∧ loadStore (some text) = items.map shown := by
  have hrows : ∀ x ∈ items.map rowText, CleanValue x := by
    intro x hx
    obtain ⟨t, ht, rfl⟩ := List.mem_map.mp hx
    exact rowText_clean (h t ht)
  have hms : WrittenMembers [(lit "tasks", arrText (items.map rowText))] :=
    .key (by decide) (.arrText hrows) .nil
  have hnl : NulFree (lit "\n") ∧ Ws (lit "\n") := by
    have hall : (lit "\n").all (fun c => c != 0 && isSpace c) = true := by decide
    simp only [List.all_eq_true, Bool.and_eq_true] at hall
    exact ⟨fun c hc => by simpa using (hall c hc).1, fun c hc => (hall c hc).2⟩
  have htop : jsonRefTopObject text = some (objText [(lit "tasks", arrText (items.map rowText))]) := by
    rw [(writeStore_eq h hw).1]
    exact jsonRefTopObject_trailing hms.objText ((CleanValue.objText hms).nulFree.append hnl.1) hnl.2
  have harr : ArrText (arrText (items.map rowText)) (items.map rowText) :=
    arrText_reads fun x hx => (hrows x hx).value
  have htasks : jsonRefObjectGetArray (objText [(lit "tasks", arrText (items.map rowText))]) (lit "tasks") =
      some (arrText (items.map rowText)) := by
    rw [jsonRefObjectGetArray, hms.get]
    rfl
  refine ⟨by rw [htop]; rfl, ?_⟩
  simp only [loadStore, htop, Option.bind_some, htasks]
  rw [arrayEntries_eq harr, filterMap_loadItem h, List.take_of_length_le (by simpa using hcount)]

end Floofclaw.Guarantees.TaskStoreText
