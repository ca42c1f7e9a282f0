import Floofclaw.Guarantees.AffairProjections
import Floofclaw.Guarantees.CallEvents
import Floofclaw.Guarantees.TextCodec
import Floofclaw.Lib.Lines
import Floofclaw.Source.TaskArchive

/-!
# Archived tasks

A pass moves tasks in two steps, the lines first and the store behind them. The
readers of a task see the same through compaction, so a line carries what the
task had, however often the store was rewritten before. Over a run whose passes
get to their ends once they have appended anything, each task is in the store or
in one line of the archive.
-/

set_option autoImplicit false

namespace Floofclaw.Guarantees.TaskArchives
open Floofclaw.Lib Floofclaw.Source.Json Floofclaw.Source.TaskState Floofclaw.Source.TaskProjection
open Floofclaw.Source.TaskArchive
open Floofclaw.Source.AgentExec (objectItems)
open Floofclaw.Source.StoreFile (appendPieces separator)
open Floofclaw.Guarantees.CallEvents (Legible keyOf itemOf objectItems_eq Appended)

/-! ## Lists of texts -/

theorem mapM_eq_some_iff {α β : Type} {f : α → Option β} {xs : List α} {ys : List β} :
    xs.mapM f = some ys ↔ List.Forall₂ (fun x y => f x = some y) xs ys := by
  induction xs generalizing ys with
  | nil => simp [eq_comm]
  | cons x xs ih =>
    rw [List.mapM_cons]
    constructor
    · intro h
      obtain ⟨y, hy, h⟩ := Option.bind_eq_some_iff.mp h
      obtain ⟨rest, hrest, h⟩ := Option.bind_eq_some_iff.mp h
      obtain rfl := Option.some.inj h
      exact .cons hy (ih.mp hrest)
    · rintro (_ | ⟨hy, hrest⟩)
      simp [hy, ih.mpr hrest]

/-- Texts with a comma before each but the first. -/
def behind (first : Bool) (rs : List Bytes) : Bytes := if first then elemsText rs else rs.flatMap fun r => ch ',' :: r

theorem behind_nil (first : Bool) : behind first [] = [] := by cases first <;> rfl

theorem behind_cons (first : Bool) (r : Bytes) (rs : List Bytes) :
    behind first (r :: rs) = separator first ++ r ++ behind false rs := by
  cases first with
  | true => simp [behind, separator, TaskStoreText.elemsText_cons]
  | false => simp [behind, separator, lit]

/-! ## Readers see through compaction -/

theorem compacts_trans {a b c : Bytes} (h : Compacts a b) (h' : Compacts b c) : Compacts a c :=
  h'.squeezes.unique h.stable ▸ h

theorem compacts_string {v c : Bytes} (hv : IsValue v) (h : Compacts v c) (htype : jsonRefInferType v = .string) : c = v := by
  obtain ⟨b, hb, rfl⟩ := isValue_string hv htype
  exact h.squeezes.unique (.quoted hb)

/-- What is not a string is not copied. -/
theorem copy_nonString {cap : Nat} {v : Bytes} (htype : jsonRefInferType v ≠ .string) : jsonRefStringCopy cap v = none := by
  cases v with
  | nil => rfl
  | cons c s =>
    have hc : c ≠ ch '"' := by
      rintro rfl
      exact htype rfl
    rw [jsonRefStringCopy, stringCopyWrite, if_neg hc]

theorem copy_compact {v c : Bytes} (hv : IsValue v) (h : Compacts v c) (cap : Nat) :
    jsonRefStringCopy cap c = jsonRefStringCopy cap v := by
  by_cases htype : jsonRefInferType v = .string
  · rw [compacts_string hv h htype]
  · rw [copy_nonString htype, copy_nonString (h.sameType ▸ htype)]

/-- The members of a compacted object. -/
theorem objText_compact {t c : Bytes} {ms : List (Bytes × Bytes)} (h : ObjText t ms) (hc : Compacts t c) :
    ∃ ms', ObjText c ms' ∧ List.Forall₂ (fun m m' => m.1 = m'.1 ∧ Compacts m.2 m'.2) ms ms' := by
  obtain ⟨c', ms', hc', hobj, hall⟩ := TextCodec.ObjText.compacts h
  rw [hc.squeezes.unique hc'.squeezes]
  exact ⟨ms', hobj, hall⟩

theorem memberLookup_compact {ms ms' : List (Bytes × Bytes)}
    (h : List.Forall₂ (fun m m' => m.1 = m'.1 ∧ Compacts m.2 m'.2) ms ms') (key : Bytes) :
    Option.Rel Compacts (memberLookup key ms) (memberLookup key ms') := by
  induction h with
  | nil => exact .none
  | @cons m m' ms ms' hm _ ih =>
    obtain ⟨k, v⟩ := m
    obtain ⟨k', v'⟩ := m'
    obtain rfl : k = k' := hm.1
    rw [memberLookup, memberLookup]
    split
    · exact .none
    · split
      · exact .some hm.2
      · exact ih

/-- A lookup in something that is no object fails. -/
theorem get_nonObject {t key : Bytes} (htype : jsonRefInferType t ≠ .object) : jsonRefObjectGet t key = none := by
  cases t with
  | nil => rfl
  | cons c s =>
    have hc : c ≠ ch '\x7b' := by
      rintro rfl
      exact htype rfl
    rw [jsonRefObjectGet, if_neg hc]

theorem get_compact {t c : Bytes} (ht : IsValue t) (h : Compacts t c) (key : Bytes) :
    Option.Rel Compacts (jsonRefObjectGet t key) (jsonRefObjectGet c key) := by
  by_cases htype : jsonRefInferType t = .object
  · obtain ⟨ms, hms⟩ := isValue_object ht htype
    obtain ⟨ms', hms', hall⟩ := objText_compact hms h
    rw [jsonRefObjectGet_eq hms, jsonRefObjectGet_eq hms']
    exact memberLookup_compact hall key
  · rw [get_nonObject htype, get_nonObject (h.sameType ▸ htype)]
    exact .none

theorem get_value {t key v : Bytes} (ht : IsValue t) (h : jsonRefObjectGet t key = some v) : IsValue v := by
  by_cases htype : jsonRefInferType t = .object
  · obtain ⟨ms, hms⟩ := isValue_object ht htype
    rw [jsonRefObjectGet_eq hms] at h
    obtain ⟨m, hm, rfl⟩ := memberLookup_mem h
    exact (hms.wellformed m hm).2
  · rw [get_nonObject htype] at h
    cases h

section Compact
variable {t c : Bytes} (ht : IsValue t) (h : Compacts t c)
include ht h

theorem getString_compact (key : Bytes) (cap : Nat) : jsonRefObjectGetString c key cap = jsonRefObjectGetString t key cap := by
  have hrel := get_compact ht h key
  rw [jsonRefObjectGetString, jsonRefObjectGetString]
  cases hv : jsonRefObjectGet t key with
  | none =>
    rw [hv] at hrel
    generalize jsonRefObjectGet c key = o at hrel ⊢
    cases hrel with
    | none => rfl
  | some v =>
    rw [hv] at hrel
    generalize jsonRefObjectGet c key = o at hrel ⊢
    cases hrel with
    | some hrel => exact copy_compact (get_value ht hv) hrel cap

/-- The lookups of one type. -/
theorem getTyped_compact (key : Bytes) (type : JsonRefType) :
    Option.Rel Compacts ((jsonRefObjectGet t key).filter fun v => jsonRefInferType v = type)
      ((jsonRefObjectGet c key).filter fun v => jsonRefInferType v = type) := by
  have hrel := get_compact ht h key
  generalize jsonRefObjectGet t key = o at hrel ⊢
  generalize jsonRefObjectGet c key = o' at hrel ⊢
  cases hrel with
  | none => exact .none
  | @some v v' hv =>
    simp only [Option.filter, hv.sameType]
    split
    · exact .some hv
    · exact .none

/-- The state of the task, where it has one of its own. -/
theorem state_compact : Option.Rel (fun v v' => IsValue v ∧ Compacts v v') (jsonRefObjectGetObject t (lit "state"))
    (jsonRefObjectGetObject c (lit "state")) := by
  have hrel := getTyped_compact ht h (lit "state") .object
  have hvalue : ∀ {v}, jsonRefObjectGetObject t (lit "state") = some v → IsValue v := fun hv =>
    get_value ht (Option.filter_eq_some_iff.mp hv).1
  rw [← jsonRefObjectGetObject, ← jsonRefObjectGetObject] at hrel
  generalize jsonRefObjectGetObject c (lit "state") = o' at hrel ⊢
  generalize jsonRefObjectGetObject t (lit "state") = o at hrel hvalue ⊢
  cases hrel with
  | none => exact .none
  | some hv => exact .some ⟨hvalue rfl, hv⟩

theorem textField_compact (key : Bytes) (cap : Nat) : textField c key cap = textField t key cap := by
  have hrel := state_compact ht h
  rw [textField, textField, rtTaskJsonStateString, rtTaskJsonStateString, getString_compact ht h]
  generalize jsonRefObjectGetObject c (lit "state") = o' at hrel ⊢
  generalize jsonRefObjectGetObject t (lit "state") = o at hrel ⊢
  cases hrel with
  | none => rfl
  | some hv => rw [Option.bind_some, Option.bind_some, getString_compact hv.1 hv.2]

theorem archivable_compact (contextId : Bytes) : archivable contextId c = archivable contextId t := by
  have hrel := state_compact ht h
  have hstate : rtTaskJsonState c rtSmall = rtTaskJsonState t rtSmall := by
    have hsplit : ∀ v, rtTaskJsonState v rtSmall =
        (((jsonRefObjectGetObject v (lit "state")).bind fun state => jsonRefObjectGetString state (lit "status") rtSmall <|>
          jsonRefObjectGetString state (lit "state") rtSmall) <|> jsonRefObjectGetString v (lit "state") rtSmall) := fun _ => rfl
    rw [hsplit, hsplit, getString_compact ht h]
    generalize jsonRefObjectGetObject c (lit "state") = o' at hrel ⊢
    generalize jsonRefObjectGetObject t (lit "state") = o at hrel ⊢
    cases hrel with
    | none => rfl
    | some hv => rw [Option.bind_some, Option.bind_some, getString_compact hv.1 hv.2, getString_compact hv.1 hv.2]
  rw [archivable, archivable, textField_compact ht h, hstate]

theorem stateArray_compact (key : Bytes) :
    Option.Rel Compacts (rtTaskJsonStateArray t key) (rtTaskJsonStateArray c key) := by
  have hrel := state_compact ht h
  have htop := getTyped_compact ht h key .array
  rw [← jsonRefObjectGetArray, ← jsonRefObjectGetArray] at htop
  rw [rtTaskJsonStateArray, rtTaskJsonStateArray]
  generalize jsonRefObjectGetObject c (lit "state") = o' at hrel ⊢
  generalize jsonRefObjectGetObject t (lit "state") = o at hrel ⊢
  cases hrel with
  | none => exact htop
  | @some v v' hv =>
    have hin := getTyped_compact hv.1 hv.2 key .array
    rw [← jsonRefObjectGetArray, ← jsonRefObjectGetArray] at hin
    rw [Option.bind_some, Option.bind_some]
    generalize jsonRefObjectGetArray v key = a at hin ⊢
    generalize jsonRefObjectGetArray v' key = a' at hin ⊢
    cases hin with
    | none => exact htop
    | some hin => exact .some hin

end Compact

/-! ## What a line carries -/

/-- The texts of a task that a line repeats in its state. -/
def textKeys : List Bytes := [lit "work", lit "done_when", lit "working_memory"]

/-- The keys of the task, and those of its texts, fit the buffers of the archive. -/
structure Readable (t : JsonRef) : Prop where
  keys : ∀ ms, ObjText t ms → Legible ms
  texts : ∀ key ∈ textKeys, textField t key rtLarge = textField t key rtXl

/-- The line has the members of the task, and its texts and artifacts in a state of its own. -/
structure ArchiveOf (t line : JsonRef) : Prop where
  members : ∀ key, key ∉ ownKeys → Option.Rel Compacts (jsonRefObjectGet t key) (jsonRefObjectGet line key)
  state : ∃ state, jsonRefObjectGetObject line (lit "state") = some state ∧
    (∀ key ∈ textKeys, (jsonRefObjectGetString state key rtXl).getD [] = textField t key rtXl) ∧
    ∃ artifacts, jsonRefObjectGetArray state (lit "artifacts") = some artifacts ∧
      Compacts ((rtTaskJsonStateArray t (lit "artifacts")).getD (lit "[]")) artifacts

theorem emptyArray_compacts : Compacts (lit "[]") (lit "[]") :=
  .of_stable (.arrEmpty Ws.nil) (.of_all (by decide))

/-- A line of the compacted task is one of the task. -/
theorem ArchiveOf.of_compact {t c line : JsonRef} (ht : IsValue t) (h : Compacts t c) (hline : ArchiveOf c line) :
    ArchiveOf t line := by
  refine ⟨fun key hkey => ?_, ?_⟩
  · have hfirst := get_compact ht h key
    have hnext := hline.members key hkey
    generalize jsonRefObjectGet t key = o at hfirst ⊢
    generalize jsonRefObjectGet c key = o1 at hfirst hnext
    cases hfirst with
    | none => exact hnext
    | some hv =>
      generalize jsonRefObjectGet line key = o' at hnext ⊢
      cases hnext with
      | some hv' => exact .some (compacts_trans hv hv')
  · obtain ⟨state, hstate, htexts, artifacts, hartifacts, hsame⟩ := hline.state
    refine ⟨state, hstate, fun key hkey => (htexts key hkey).trans (textField_compact ht h key rtXl), artifacts, hartifacts, ?_⟩
    have hrel := stateArray_compact ht h (lit "artifacts")
    generalize rtTaskJsonStateArray t (lit "artifacts") = o at hrel ⊢
    generalize rtTaskJsonStateArray c (lit "artifacts") = o' at hrel hsame
    cases hrel with
    | none => exact hsame
    | some hv => exact compacts_trans hv hsame

/-! ## Making a line -/

theorem copyCompact_some {cap : Nat} {v c : Bytes} (hv : IsValue v) (h : copyCompact cap v = some c) : Compacts v c := by
  obtain ⟨raw, hraw, hcompact⟩ := Option.bind_eq_some_iff.mp h
  rw [TaskPayloads.valueCopy_eq hraw] at hcompact
  obtain ⟨c', hc⟩ := isValue_compacts hv
  rw [jsonCompact_eq hv.nulFree hc] at hcompact
  split at hcompact
  · cases hcompact
    exact hc
  · cases hcompact

theorem appendPair_some {x p : Bytes × Bytes} (hkey : NulFree x.1) (hvalue : IsValue x.2) (h : appendPair x = some p) :
    Appended x p := by
  obtain ⟨ekey, hekey, h⟩ := Option.bind_eq_some_iff.mp h
  obtain ⟨c, hc, rfl⟩ := Option.map_eq_some_iff.mp h
  refine ⟨?_, copyCompact_some hvalue hc⟩
  rw [(WorkOutcomes.mirror_some hekey).1, cstr_eq_self hkey]

/-- The members a lookup reads, by their keys. -/
theorem memberLookup_read {ms items : List (Bytes × Bytes)}
    (h : List.Forall₂ (fun m x => jsonRefStringCopy 256 (quoted m.1) = some x.1 ∧ m.2 = x.2) ms items) (key : Bytes) :
    memberLookup key ms = assoc key items := by
  induction h with
  | nil => rfl
  | @cons m x ms items hm _ ih =>
    obtain ⟨k, v⟩ := m
    obtain ⟨d, w⟩ := x
    obtain ⟨hd, rfl⟩ := hm
    rw [memberLookup, assoc, hd, ih]

theorem memberLookup_items {ms : List (Bytes × Bytes)} (h : Legible ms) (key : Bytes) :
    memberLookup key ms = assoc key (ms.map itemOf) := by
  refine memberLookup_read ?_ key
  rw [List.forall₂_map_right_iff, List.forall₂_same]
  intro m hm
  obtain ⟨d, hd, -, -⟩ := h.key hm
  have hwide : jsonRefStringCopy 256 (quoted m.1) = some d := jsonRefStringCopy_mono (by decide) hd
  rw [itemOf, hd, Option.getD_some]
  exact ⟨hwide, rfl⟩

/-- The members of the line in front of its own. -/
theorem memberLookup_pairs {items pairs : List (Bytes × Bytes)} (h : List.Forall₂ Appended items pairs)
    (hitems : ∀ x ∈ items, NulFree x.1 ∧ x.1.length < rtSmall) (tail : List (Bytes × Bytes)) (key : Bytes) :
    (∀ v, assoc key items = some v → ∃ c, memberLookup key (pairs ++ tail) = some c ∧ Compacts v c) ∧
      (assoc key items = none → memberLookup key (pairs ++ tail) = memberLookup key tail) := by
  induction h with
  | nil => exact ⟨(fun _ heq => by cases heq), fun _ => rfl⟩
  | @cons x p items pairs hp _ ih =>
    obtain ⟨⟨hnul, hlen⟩, hrest⟩ := List.forall_mem_cons.mp hitems
    obtain ⟨d, v⟩ := x
    obtain ⟨k, c⟩ := p
    obtain ⟨rfl, hc⟩ : k = escaped d ∧ Compacts v c := hp
    have hcopy : jsonRefStringCopy 256 (quoted (escaped d)) = some d :=
      jsonRefStringCopy_escaped hnul (Nat.lt_trans hlen (by decide))
    rw [assoc, List.cons_append, memberLookup, hcopy]
    dsimp only
    by_cases hkey : d = key
    · rw [if_pos hkey, if_pos hkey]
      exact ⟨fun w hw => ⟨c, rfl, Option.some.inj hw ▸ hc⟩, (fun heq => by cases heq)⟩
    · rw [if_neg hkey, if_neg hkey]
      exact ih hrest

/-- The members that are not the line's own. -/
theorem assoc_filter {key : Bytes} (items : List (Bytes × Bytes)) :
    assoc key (items.filter fun x => !ownKeys.contains x.1) = if ownKeys.contains key then none else assoc key items := by
  induction items with
  | nil => simp [assoc]
  | cons x items ih =>
    obtain ⟨d, v⟩ := x
    rw [List.filter_cons]
    by_cases hown : ownKeys.contains d = true
    · rw [if_neg (by simpa using hown), ih, assoc]
      by_cases hkey : d = key
      · rw [← hkey, if_pos hown, if_pos hown]
      · rw [if_neg hkey]
    · rw [if_pos (by simpa using hown), assoc, assoc, ih]
      by_cases hkey : d = key
      · subst hkey
        rw [if_pos rfl, if_pos rfl, if_neg hown]
      · rw [if_neg hkey, if_neg hkey]

/-- A member whose value has no white space between its parts. -/
def Laid (m : Bytes × Bytes) : Prop := StrBody m.1 ∧ Compacts m.2 m.2

theorem laid_objText {ms : List (Bytes × Bytes)} (h : ∀ m ∈ ms, Laid m) :
    ObjText (objText ms) ms ∧ Compacts (objText ms) (objText ms) := by
  have htext := objText_reads fun m hm => ⟨(h m hm).1, (h m hm).2.value⟩
  exact ⟨htext, .of_stable htext.isValue (.objText fun m hm => ⟨(h m hm).1, (h m hm).2.squeezes⟩)⟩

/-- A compact text is one line. -/
theorem compact_line {t : Bytes} (h : Compacts t t) : ch '\n' ∉ t := by
  have hctl : ∀ x ∈ t, ¬ x < 0x20 := by
    refine (TextCodec.Compacts.packed h.value.nulFree h).and h.value.tame.along fun st x hp hx hlt => ?_
    obtain ⟨hst, hsp⟩ := hx hlt
    rw [hp hst] at hsp
    exact Bool.false_ne_true hsp
  exact fun hmem => hctl _ hmem (by decide)

theorem quoted_laid (s : Bytes) : Compacts (quoted (escaped s)) (quoted (escaped s)) :=
  .of_stable (.str (escaped_strBody s)) (.text s)

theorem null_laid : Compacts (lit "null") (lit "null") := .of_stable .null (.of_all (lit_all (by decide)))

theorem decInt_laid (z : Int) : Compacts (decInt z) (decInt z) :=
  .of_stable (.num (decInt_numText z)) (.solid (numText_solid (decInt_numText z)))

theorem prose_laid (field s : Bytes) : Compacts (proseField field (escaped s)) (proseField field (escaped s)) := by
  rw [proseField]
  split
  · exact null_laid
  · exact quoted_laid s

theorem laid_cons {key v : Bytes} {ms : List (Bytes × Bytes)} (hkey : plainKey key = true) (hv : Compacts v v)
    (h : ∀ m ∈ ms, Laid m) : ∀ m ∈ (key, v) :: ms, Laid m :=
  List.forall_mem_cons.mpr ⟨⟨plainKey_strBody hkey, hv⟩, h⟩

section Line
variable (work done memory : Bytes) {artifacts : Bytes} (ms : Int)

theorem lineState_laid (hartifacts : Compacts artifacts artifacts) :
    ∀ m ∈ lineState work (escaped work) done (escaped done) (escaped memory) artifacts ms, Laid m :=
  laid_cons (plainKey_lit (by decide)) (quoted_laid (lit "archived")) (laid_cons (plainKey_lit (by decide)) (prose_laid _ _)
    (laid_cons (plainKey_lit (by decide)) (prose_laid _ _) (laid_cons (plainKey_lit (by decide)) (quoted_laid _) (laid_cons (plainKey_lit (by decide)) hartifacts
      (laid_cons (plainKey_lit (by decide)) (decInt_laid ms) nofun)))))

theorem lineTail_laid {state : List (Bytes × Bytes)} (hstate : ∀ m ∈ state, Laid m) :
    ∀ m ∈ lineTail state ms, Laid m :=
  laid_cons (plainKey_lit (by decide)) (laid_objText hstate).2 (laid_cons (plainKey_lit (by decide)) (quoted_laid (lit "completed"))
    (laid_cons (plainKey_lit (by decide)) (decInt_laid ms) nofun))

end Line

theorem lineTail_plain (state : List (Bytes × Bytes)) (ms : Int) : ∀ m ∈ lineTail state ms, plainKey m.1 = true := by
  have hkeys : ∀ k ∈ ownKeys, plainKey k = true := by decide
  intro m hm
  exact hkeys m.1 (List.mem_map_of_mem (f := Prod.fst) hm)

/-- The own members of the line hide no other. -/
theorem lineTail_other {key : Bytes} (hkey : key ∉ ownKeys) (state : List (Bytes × Bytes)) (ms : Int) :
    memberLookup key (lineTail state ms) = none := by
  simp only [ownKeys, List.mem_cons, List.not_mem_nil, or_false, not_or] at hkey
  rw [memberLookup_plain (lineTail_plain state ms), lineTail]
  simp only [assoc, if_neg (Ne.symm hkey.1), if_neg (Ne.symm hkey.2.1), if_neg (Ne.symm hkey.2.2)]

theorem stateArray_value {t key a : Bytes} (ht : IsValue t) (h : rtTaskJsonStateArray t key = some a) :
    IsValue a ∧ jsonRefInferType a = .array := by
  have hfiltered : ∀ {v}, IsValue v → jsonRefObjectGetArray v key = some a → IsValue a ∧ jsonRefInferType a = .array := by
    intro v hv ha
    obtain ⟨hget, htype⟩ := Option.filter_eq_some_iff.mp ha
    exact ⟨get_value hv hget, by simpa using htype⟩
  rw [rtTaskJsonStateArray] at h
  split at h
  · rename_i v hv
    cases h
    obtain ⟨state, hstate, hin⟩ := Option.bind_eq_some_iff.mp hv
    exact hfiltered (get_value ht (Option.filter_eq_some_iff.mp hstate).1) hin
  · exact hfiltered ht h

theorem artifactsField_some {t artifacts : Bytes} (ht : IsValue t) (h : artifactsField t = some artifacts) :
    Compacts ((rtTaskJsonStateArray t (lit "artifacts")).getD (lit "[]")) artifacts ∧
      jsonRefInferType artifacts = .array := by
  rw [artifactsField] at h
  split at h
  · rename_i hnone
    cases h
    rw [hnone]
    exact ⟨emptyArray_compacts, rfl⟩
  · rename_i array harray
    obtain ⟨hvalue, htype⟩ := stateArray_value ht harray
    have hc := copyCompact_some hvalue h
    rw [harray]
    exact ⟨hc, hc.sameType.trans htype⟩

theorem textField_text (t key : Bytes) {cap : Nat} (hcap : 0 < cap) : TextField cap (textField t key cap) :=
  TaskRoundTrip.stateString_getD hcap

section State
variable {work done memory artifacts : Bytes} {ms : Int}

/-- A text of the state, read back. -/
theorem prose_read {s : Bytes} (hs : TextField rtLarge s) : (jsonRefStringCopy rtXl (proseField s (escaped s))).getD [] = s := by
  rw [proseField]
  split
  · rename_i hnil
    rw [hnil]
    rfl
  · rw [jsonRefStringCopy_escaped hs.nulFree (Nat.lt_trans hs.fits (by decide)), Option.getD_some]

theorem lineState_read (hwork : TextField rtLarge work) (hdone : TextField rtLarge done) (hmemory : TextField rtLarge memory)
    (hartifacts : Compacts artifacts artifacts) (htype : jsonRefInferType artifacts = .array) (texts : Bytes → Bytes)
    (hkeys : texts (lit "work") = work ∧ texts (lit "done_when") = done ∧ texts (lit "working_memory") = memory) :
    let state := objText (lineState work (escaped work) done (escaped done) (escaped memory) artifacts ms)
    (∀ key ∈ textKeys, (jsonRefObjectGetString state key rtXl).getD [] = texts key) ∧
      jsonRefObjectGetArray state (lit "artifacts") = some artifacts := by
  intro state
  have hplain : ∀ m ∈ lineState work (escaped work) done (escaped done) (escaped memory) artifacts ms, plainKey m.1 = true := by
    have hall : ∀ k ∈ [lit "status", lit "work", lit "done_when", lit "working_memory", lit "artifacts", lit "updated_ms"],
        plainKey k = true := by (repeat rw [lit_ofList]); decide
    intro m hm
    exact hall m.1 (List.mem_map_of_mem (f := Prod.fst) hm)
  have hget : ∀ key, jsonRefObjectGet state key =
      assoc key (lineState work (escaped work) done (escaped done) (escaped memory) artifacts ms) := fun key => by
    rw [jsonRefObjectGet_eq (laid_objText (lineState_laid work done memory ms hartifacts)).1, memberLookup_plain hplain]
  have hread : ∀ key v, assoc key (lineState work (escaped work) done (escaped done) (escaped memory) artifacts ms) = some v →
      jsonRefObjectGetString state key rtXl = jsonRefStringCopy rtXl v := by
    intro key v hv
    rw [jsonRefObjectGetString, hget, hv, Option.bind_some]
  refine ⟨?_, ?_⟩
  · intro key hkey
    simp only [textKeys, List.mem_cons, List.not_mem_nil, or_false] at hkey
    rcases hkey with rfl | rfl | rfl
    · rw [hread _ _ rfl, prose_read hwork, hkeys.1]
    · rw [hread _ _ rfl, prose_read hdone, hkeys.2.1]
    · rw [hread _ _ rfl, jsonRefStringCopy_escaped hmemory.nulFree (Nat.lt_trans hmemory.fits (by decide)), hkeys.2.2]
      rfl
  · rw [jsonRefObjectGetArray, hget]
    exact Option.filter_some_pos (decide_eq_true htype)

end State

theorem appended_laid {items pairs : List (Bytes × Bytes)} (h : List.Forall₂ Appended items pairs) : ∀ m ∈ pairs, Laid m := by
  induction h with
  | nil => exact nofun
  | cons hp _ ih => exact List.forall_mem_cons.mpr ⟨⟨hp.1 ▸ escaped_strBody _, .of_stable hp.2.value hp.2.stable⟩, ih⟩

/-- The members of the line, found by their keys. -/
theorem line_members {t : Bytes} {members items pairs state : List (Bytes × Bytes)} {ms : Int} (ht : ObjText t members)
    (hlegible : Legible members) (hitems : items = (members.map itemOf).filter fun x => !ownKeys.contains x.1)
    (hbounds : ∀ x ∈ items, NulFree x.1 ∧ x.1.length < rtSmall) (hpairs : List.Forall₂ Appended items pairs) :
    (∀ key, key ∉ ownKeys → Option.Rel Compacts (jsonRefObjectGet t key) (memberLookup key (pairs ++ lineTail state ms))) ∧
      memberLookup (lit "state") (pairs ++ lineTail state ms) = some (objText state) := by
  constructor
  · intro key hkey
    obtain ⟨hsome, hnone⟩ := memberLookup_pairs hpairs hbounds (lineTail state ms) key
    have hassoc : assoc key items = jsonRefObjectGet t key := by
      rw [hitems, assoc_filter, if_neg (by simpa using hkey), jsonRefObjectGet_eq ht, memberLookup_items hlegible]
    rw [hassoc] at hsome hnone
    cases hget : jsonRefObjectGet t key with
    | none =>
      rw [hnone hget, lineTail_other hkey]
      exact .none
    | some v =>
      obtain ⟨c, hc, hsame⟩ := hsome v hget
      rw [hc]
      exact .some hsame
  · obtain ⟨-, hnone⟩ := memberLookup_pairs hpairs hbounds (lineTail state ms) (lit "state")
    rw [hnone (by rw [hitems, assoc_filter, if_pos (by decide)]), memberLookup_plain (lineTail_plain state ms)]
    rfl

/-- Where the task can be read whole, its line is one, and carries it. -/
theorem archiveLineForTask_some {t line : Bytes} {ms : Int} (ht : IsValue t) (htype : jsonRefInferType t = .object)
    (hread : Readable t) (h : archiveLineForTask t ms = some line) :
    ∃ obj, line = obj ++ lit "\n" ∧ ch '\n' ∉ obj ∧ ArchiveOf t obj := by
  obtain ⟨members, hmembers⟩ := isValue_object ht htype
  have hlegible := hread.keys members hmembers
  rw [archiveLineForTask] at h
  obtain ⟨pairs, hpairs, h⟩ := Option.bind_eq_some_iff.mp h
  obtain ⟨artifacts, hartifacts, h⟩ := Option.bind_eq_some_iff.mp h
  obtain ⟨ework, hwork, h⟩ := Option.bind_eq_some_iff.mp h
  obtain ⟨edone, hdone, h⟩ := Option.bind_eq_some_iff.mp h
  obtain ⟨ememory, hmemory, h⟩ := Option.bind_eq_some_iff.mp h
  dsimp only at h
  split at h
  · cases h
  cases h
  have hworkText := textField_text t (lit "work") (show 0 < rtLarge by decide)
  have hdoneText := textField_text t (lit "done_when") (show 0 < rtLarge by decide)
  have hmemoryText : TextField rtLarge (textField t (lit "working_memory") taskWorkingMemoryMax) :=
    textField_text t (lit "working_memory") (show 0 < rtLarge by decide)
  rw [(WorkOutcomes.mirror_some hwork).1, (WorkOutcomes.mirror_some hdone).1, (WorkOutcomes.mirror_some hmemory).1,
    cstr_eq_self hworkText.nulFree, cstr_eq_self hdoneText.nulFree, cstr_eq_self hmemoryText.nulFree]
  obtain ⟨hsame, harray⟩ := artifactsField_some ht hartifacts
  have hstable : Compacts artifacts artifacts := .of_stable hsame.value hsame.stable
  rw [objectItems_eq hmembers hlegible, mapM_eq_some_iff] at hpairs
  have hitems : ∀ x ∈ (members.map itemOf).filter fun x => !ownKeys.contains x.1, (NulFree x.1 ∧ x.1.length < rtSmall) ∧ IsValue x.2 := by
    intro x hx
    obtain ⟨m, hm, rfl⟩ := List.mem_map.mp (List.mem_of_mem_filter hx)
    obtain ⟨d, hd, hnul, hlen⟩ := hlegible.key hm
    rw [itemOf, hd, Option.getD_some]
    exact ⟨⟨hnul, hlen⟩, (hmembers.wellformed m hm).2⟩
  have happended := ((List.forall₂_and_left _ _).mpr ⟨hitems, hpairs⟩).imp fun x p hxp => appendPair_some hxp.1.1.1 hxp.1.2 hxp.2
  obtain ⟨hget, hstate⟩ := @line_members t members _ _ _ ms hmembers hlegible rfl (fun x hx => (hitems x hx).1) happended
  have hstateLaid := lineState_laid (textField t (lit "work") rtLarge) (textField t (lit "done_when") rtLarge)
    (textField t (lit "working_memory") taskWorkingMemoryMax) ms hstable
  have hlaid := laid_objText (List.forall_mem_append.mpr ⟨appended_laid happended, lineTail_laid ms hstateLaid⟩)
  have htexts : ∀ key ∈ textKeys, textField t key rtXl = textField t key rtLarge := fun key hkey => (hread.texts key hkey).symm
  have hkeys := And.intro (htexts (lit "work") (by rw [lit_ofList]; decide)) (And.intro (htexts (lit "done_when") (by rw [lit_ofList]; decide))
    (htexts (lit "working_memory") (by rw [lit_ofList]; decide)))
  obtain ⟨hstateTexts, hstateArray⟩ := @lineState_read _ _ _ _ ms hworkText hdoneText hmemoryText hstable harray
    (fun key => textField t key rtXl) hkeys
  refine ⟨_, rfl, compact_line hlaid.2, fun key hkey => ?_, _, ?_, hstateTexts, artifacts, hstateArray, hsame⟩
  · rw [jsonRefObjectGet_eq hlaid.1]
    exact hget key hkey
  · rw [jsonRefObjectGetObject, jsonRefObjectGet_eq hlaid.1, hstate]
    exact Option.filter_some_pos (decide_eq_true (ObjText.inferType (laid_objText hstateLaid).1))

/-! ## What a pass does to each task -/

/-- Where a task of the old store is: in the store, or in a line of the archive. -/
inductive Fate
  | kept (task : JsonRef)
  | archived (line : Bytes)

/-- The tasks in the store, in their order. -/
def stored : List Fate → List JsonRef
  | [] => []
  | .kept task :: fates => task :: stored fates
  | .archived _ :: fates => stored fates

/-- The lines, by the order of the tasks. -/
def lines : List Fate → List Bytes
  | [] => []
  | .kept _ :: fates => lines fates
  | .archived line :: fates => line :: lines fates

/-- A task in the store has its value, a line carries it; only completed tasks of the contexts leave the store. -/
inductive FateOf (contexts : List Bytes) (t : JsonRef) : Fate → Prop
  | same : FateOf contexts t (.kept t)
  | compacted {c : JsonRef} : Compacts t c → FateOf contexts t (.kept c)
  | archived {line contextId : Bytes} : contextId ∈ contexts → archivable contextId t = true → ch '\n' ∉ line →
      ArchiveOf t line → FateOf contexts t (.archived line)

def isTask (entry : JsonRef) : Bool := jsonRefInferType entry = .object

/-- The tasks of a store text: the entries that are objects. -/
def tasks (text : Option Bytes) : List JsonRef := ((storedEntries text).getD []).filter isTask

theorem storedEntries_value {text : Option Bytes} {entries : List JsonRef} (h : storedEntries text = some entries) :
    ∀ t ∈ entries, IsValue t := by
  obtain ⟨array, harray, rfl⟩ := Option.map_eq_some_iff.mp h
  obtain ⟨root, hroot, harray⟩ := Option.bind_eq_some_iff.mp harray
  obtain ⟨hget, htype⟩ := Option.filter_eq_some_iff.mp harray
  obtain ⟨xs, hxs⟩ := isValue_array (get_value (jsonRefFromText_sound hroot).1 hget) (by simpa using htype)
  rw [TaskStoreText.arrayEntries_eq hxs]
  exact hxs.wellformed

theorem tasks_value (text : Option Bytes) : ∀ t ∈ tasks text, IsValue t := by
  intro t ht
  obtain ⟨hmem, -⟩ := List.mem_filter.mp ht
  cases h : storedEntries text with
  | none =>
    rw [h] at hmem
    cases hmem
  | some entries =>
    rw [h] at hmem
    exact storedEntries_value h t hmem

theorem appendPieces_two {out a b r : Bytes} (h : appendPieces rtXl out [a, b] = some r) : r = out ++ (a ++ b) := by
  rw [StoreText.appendPieces_eq h]
  simp

/-- A loop that gets to its end: what became of each task, the lines it appended and the text it left. -/
theorem archiveLoop_done {contextId : Bytes} {ms : Int} {entries : List JsonRef} (hentries : ∀ t ∈ entries, IsValue t)
    (hread : ∀ t ∈ entries, isTask t = true → archivable contextId t = true → Readable t) {first : Bool}
    {out text : Bytes} (h : (archiveLoop contextId ms first out entries).2 = some text) :
    ∃ fates, List.Forall₂ (FateOf [contextId]) (entries.filter isTask) fates ∧
      (archiveLoop contextId ms first out entries).1.flatten = unlines (lines fates) ∧
      text = out ++ behind first (stored fates) ++ lit "]\x7d\n" ∧ text.length < rtXl := by
  induction entries generalizing first out with
  | nil =>
    rw [archiveLoop] at h ⊢
    obtain ⟨rfl, hlen⟩ := StoreText.rtAppendText_eq_some.mp h
    refine ⟨[], .nil, rfl, ?_, hlen⟩
    rw [stored, behind_nil, List.append_nil]
  | cons t entries ih =>
    obtain ⟨ht, hrest⟩ := List.forall_mem_cons.mp hentries
    obtain ⟨hreadt, hreads⟩ := List.forall_mem_cons.mp hread
    rw [archiveLoop] at h ⊢
    by_cases hobj : jsonRefInferType t = .object
    · rw [if_neg (not_not.mpr hobj)] at h ⊢
      have htask : isTask t = true := decide_eq_true hobj
      rw [List.filter_cons_of_pos htask]
      by_cases harch : archivable contextId t = true
      · rw [if_pos harch] at h ⊢
        cases hline : archiveLineForTask t ms with
        | none =>
          rw [hline] at h
          cases h
        | some line =>
          rw [hline] at h
          obtain ⟨fates, hfates, hlines, htext, hlen⟩ := ih hrest hreads h
          obtain ⟨obj, rfl, hnl, hof⟩ := archiveLineForTask_some ht hobj (hreadt htask harch) hline
          refine ⟨.archived obj :: fates, .cons (.archived (List.mem_singleton.mpr rfl) harch hnl hof) hfates, ?_, htext, hlen⟩
          dsimp only
          rw [List.flatten_cons, hlines, lines, unlines_cons, List.append_assoc]
          rfl
      · rw [if_neg harch] at h ⊢
        cases hkept : (copyCompact rtXl t).bind fun compact => appendPieces rtXl out [separator first, compact] with
        | none =>
          rw [hkept] at h
          cases h
        | some out1 =>
          rw [hkept] at h
          obtain ⟨c, hc, hout⟩ := Option.bind_eq_some_iff.mp hkept
          obtain ⟨fates, hfates, hlines, htext, hlen⟩ := ih hrest hreads h
          refine ⟨.kept c :: fates, .cons (.compacted (copyCompact_some ht hc)) hfates, hlines, ?_, hlen⟩
          rw [htext, stored, behind_cons, appendPieces_two hout]
          simp only [List.append_assoc]
    · rw [if_pos hobj] at h ⊢
      rw [List.filter_cons_of_neg (show ¬ isTask t = true by simpa [isTask] using hobj)]
      exact ih hrest hreads h

/-! ## The rewritten store -/

/-- The entries `load_store` goes over. -/
def loadedEntries (text : Option Bytes) : Option (List JsonRef) :=
  ((text.bind jsonRefTopObject).bind fun root => jsonRefObjectGetArray root (lit "tasks")).map arrayEntries

theorem storeText_loads {rs : List Bytes} {text : Bytes} (hrs : ∀ r ∈ rs, IsValue r)
    (htext : text = lit "\x7b\"tasks\":[" ++ behind true rs ++ lit "]\x7d\n") (hlen : text.length < rtXl) :
    storedEntries (some text) = some rs ∧ loadedEntries (some text) = some rs := by
  have hobj : text = objText [(lit "tasks", arrText rs)] ++ lit "\n" := by
    have hopen : lit "\x7b\"tasks\":[" = ch '\x7b' :: (quoted (lit "tasks") ++ [ch ':', ch '[']) := by (repeat rw [lit_ofList]); decide
    have hclose : lit "]\x7d\n" = [ch ']', ch '\x7d'] ++ lit "\n" := by decide
    rw [htext, hopen, hclose, objText, membersText, arrText, behind, if_pos rfl]
    simp
  have hclean : ∀ r ∈ rs, CleanValue r := fun r hr => ⟨hrs r hr, (hrs r hr).nulFree⟩
  have hms : WrittenMembers [(lit "tasks", arrText rs)] := .key (by decide) (.arrText hclean) .nil
  have hnul : NulFree text := by
    rw [hobj]
    exact (CleanValue.objText hms).nulFree.append newline_ws.1
  have htop : jsonRefTopObject text = some (objText [(lit "tasks", arrText rs)]) := by
    rw [hobj] at hnul ⊢
    exact jsonRefTopObject_trailing hms.objText hnul newline_ws.2
  have harray : (jsonRefObjectGetArray (objText [(lit "tasks", arrText rs)]) (lit "tasks")).map arrayEntries = some rs := by
    have hget : jsonRefObjectGetArray (objText [(lit "tasks", arrText rs)]) (lit "tasks") = some (arrText rs) := by
      rw [jsonRefObjectGetArray, hms.get]
      rfl
    rw [hget, Option.map_some, TaskStoreText.arrayEntries_eq (arrText_reads hrs)]
  have hfrom := (jsonRefTopObject_sound htop).1
  refine ⟨?_, ?_⟩
  · rw [storedEntries, rtTasksStateJson, Option.elim_some, cstr_eq_self hnul, clip_eq_self hlen, hfrom, Option.bind_some]
    exact harray
  · rw [loadedEntries, Option.bind_some, htop, Option.bind_some]
    exact harray

theorem stored_tasks {contexts : List Bytes} {ts : List JsonRef} {fates : List Fate} (h : List.Forall₂ (FateOf contexts) ts fates)
    (hts : ∀ t ∈ ts, IsValue t ∧ isTask t = true) : ∀ r ∈ stored fates, IsValue r ∧ isTask r = true := by
  induction h with
  | nil => exact nofun
  | cons hfate _ ih =>
    obtain ⟨ht, hrest⟩ := List.forall_mem_cons.mp hts
    cases hfate with
    | same => exact List.forall_mem_cons.mpr ⟨ht, ih hrest⟩
    | compacted hc =>
      refine List.forall_mem_cons.mpr ⟨⟨hc.value, ?_⟩, ih hrest⟩
      rw [isTask, hc.sameType]
      exact ht.2
    | archived => exact ih hrest

theorem lines_whole {contexts : List Bytes} {ts : List JsonRef} {fates : List Fate} (h : List.Forall₂ (FateOf contexts) ts fates) :
    ∀ l ∈ lines fates, ch '\n' ∉ l := by
  induction h with
  | nil => exact nofun
  | cons hfate _ ih =>
    cases hfate with
    | same => exact ih
    | compacted => exact ih
    | archived _ _ hnl => exact List.forall_mem_cons.mpr ⟨hnl, ih⟩

/-- Lines behind a text of whole lines. -/
theorem lined_more {a : Bytes} (ha : (lined a).rest = []) {ls : List Bytes} (hls : ∀ l ∈ ls, ch '\n' ∉ l) :
    lined (a ++ unlines ls) = ⟨(lined a).ended ++ ls, []⟩ := by
  rw [lined_append_ended, ha]
  have hfold : (unlines ls).foldl Lined.put ⟨[], []⟩ = lined (unlines ls) := rfl
  rw [hfold, lined_unlines hls]

/-! ## One pass -/

/-- Each task of the old store is in the new one or has one new line; the archive ends with a line, and a store that was
rewritten loads back. -/
structure Conserved (contexts : List Bytes) (old new : Disk) : Prop where
  moved : ∃ fates added, List.Forall₂ (FateOf contexts) (tasks old.store) fates ∧ tasks new.store = stored fates ∧
    added.Perm (lines fates) ∧ (lined new.archive).ended = (lined old.archive).ended ++ added
  ended : (lined new.archive).rest = []
  loads : new.store = old.store ∨ loadedEntries new.store = some (tasks new.store)

/-- The pass replaces the store. -/
def Completes (disk : Disk) (pass : Pass) : Prop :=
  pass.cut = none ∧ (archiveEffects pass.contextId pass.ms disk.store).2.isSome = true

/-- The pass stops before it has appended anything, or it gets to its end and can read the tasks it archives whole. -/
inductive Whole (disk : Disk) (pass : Pass) : Prop
  | stops (h : ¬ Completes disk pass) (hnothing : appended (archiveEffects pass.contextId pass.ms disk.store).1 pass.cut = [])
  | completes (h : Completes disk pass) (hread : ∀ t ∈ tasks disk.store, archivable pass.contextId t = true → Readable t)

theorem stored_kept (ts : List JsonRef) : stored (ts.map .kept) = ts ∧ lines (ts.map .kept) = [] := by
  induction ts with
  | nil => exact ⟨rfl, rfl⟩
  | cons t ts ih => exact ⟨congrArg (t :: ·) ih.1, ih.2⟩

theorem Conserved.refl (contexts : List Bytes) {disk : Disk} (h : (lined disk.archive).rest = []) :
    Conserved contexts disk disk := by
  refine ⟨⟨(tasks disk.store).map .kept, [], ?_, (stored_kept _).1.symm, ?_, (List.append_nil _).symm⟩, h, .inl rfl⟩
  · rw [List.forall₂_map_right_iff, List.forall₂_same]
    exact fun _ _ => .same
  · rw [(stored_kept _).2]

/-- A pass that gets to its end. -/
theorem pass_done {disk : Disk} {pass : Pass} {text : Bytes} (hline : (lined disk.archive).rest = [])
    (hread : ∀ t ∈ tasks disk.store, archivable pass.contextId t = true → Readable t)
    (heffect : (archiveEffects pass.contextId pass.ms disk.store).2 = some text) :
    Conserved [pass.contextId] disk
      ⟨some text, disk.archive ++ (archiveEffects pass.contextId pass.ms disk.store).1.flatten⟩ := by
  rw [archiveEffects] at heffect ⊢
  split at heffect
  · cases heffect
  · rename_i hctx
    rw [if_neg hctx]
    cases hentries : storedEntries disk.store with
    | none =>
      rw [hentries] at heffect
      cases heffect
    | some entries =>
      rw [hentries] at heffect
      have htasks : tasks disk.store = entries.filter isTask := by rw [tasks, hentries, Option.getD_some]
      have hvalues := storedEntries_value hentries
      obtain ⟨fates, hfates, hlines, htext, hlen⟩ := archiveLoop_done hvalues
        (fun t ht htask harch => hread t (by rw [htasks]; exact List.mem_filter.mpr ⟨ht, htask⟩) harch) heffect
      have hstored := stored_tasks hfates fun t ht =>
        ⟨hvalues t (List.mem_filter.mp ht).1, (List.mem_filter.mp ht).2⟩
      obtain ⟨hread', hload⟩ := storeText_loads (fun r hr => (hstored r hr).1) htext hlen
      have hnew : tasks (some text) = stored fates := by
        rw [tasks, hread', Option.getD_some, List.filter_eq_self]
        exact fun r hr => (hstored r hr).2
      have hlined := lined_more hline (lines_whole hfates)
      rw [← hlines] at hlined
      refine ⟨⟨fates, lines fates, htasks ▸ hfates, hnew, .refl _, ?_⟩, ?_, .inr (hload.trans (congrArg some hnew.symm))⟩
      · exact congrArg Lined.ended hlined
      · exact congrArg Lined.rest hlined

theorem pass_conserved {disk : Disk} {pass : Pass} (hline : (lined disk.archive).rest = []) (h : Whole disk pass) :
    Conserved [pass.contextId] disk (archivePass disk pass) := by
  cases h with
  | completes hdone hread =>
    obtain ⟨text, htext⟩ := Option.isSome_iff_exists.mp hdone.2
    have hpass : archivePass disk pass =
        ⟨some text, disk.archive ++ (archiveEffects pass.contextId pass.ms disk.store).1.flatten⟩ := by
      rw [archivePass, hdone.1, htext]
      rfl
    rw [hpass]
    exact pass_done hline hread htext
  | stops hdone hnothing =>
    have hpass : archivePass disk pass = disk := by
      rw [archivePass, hnothing, List.append_nil]
      cases hcut : pass.cut with
      | some cut => rfl
      | none =>
        have hnone : (archiveEffects pass.contextId pass.ms disk.store).2 = none :=
          Option.not_isSome_iff_eq_none.mp fun hsome => hdone ⟨hcut, hsome⟩
        rw [hnone]
        rfl
    rw [hpass]
    exact .refl _ hline

/-! ## Runs -/

/-- The fates over two stretches of a run: what the first one kept goes on with the second. -/
def settle : List Fate → List Fate → List Fate
  | .kept _ :: fates, fate :: later => fate :: settle fates later
  | .archived line :: fates, later => .archived line :: settle fates later
  | fates, _ => fates

theorem FateOf.mono {cs cs' : List Bytes} (h : cs ⊆ cs') {t : JsonRef} {fate : Fate} (hfate : FateOf cs t fate) : FateOf cs' t fate := by
  cases hfate with
  | same => exact .same
  | compacted hc => exact .compacted hc
  | archived hin harch hnl hof => exact .archived (h hin) harch hnl hof

/-- A task that was kept, and its fate after that. -/
theorem FateOf.after {cs cs' : List Bytes} {t t' : JsonRef} {fate : Fate} (ht : IsValue t) (h : FateOf cs t (.kept t'))
    (h' : FateOf cs' t' fate) : FateOf (cs ++ cs') t fate := by
  cases h with
  | same => exact h'.mono (List.subset_append_right cs cs')
  | compacted hc =>
    cases h' with
    | same => exact .compacted hc
    | compacted hc' => exact .compacted (compacts_trans hc hc')
    | archived hin harch hnl hof =>
      exact .archived (List.mem_append_right cs hin) (archivable_compact ht hc _ ▸ harch) hnl (hof.of_compact ht hc)

theorem settle_fates {cs cs' : List Bytes} {ts : List JsonRef} {fates later : List Fate} (hts : ∀ t ∈ ts, IsValue t)
    (h : List.Forall₂ (FateOf cs) ts fates) (h' : List.Forall₂ (FateOf cs') (stored fates) later) :
    List.Forall₂ (FateOf (cs ++ cs')) ts (settle fates later) ∧ stored (settle fates later) = stored later ∧
      (lines (settle fates later)).Perm (lines fates ++ lines later) := by
  induction h generalizing later with
  | nil =>
    cases h'
    exact ⟨.nil, rfl, .refl _⟩
  | @cons t fate ts fates hfate _ ih =>
    obtain ⟨ht, hrest⟩ := List.forall_mem_cons.mp hts
    cases fate with
    | archived line =>
      obtain ⟨hall, hstored, hlines⟩ := ih hrest h'
      exact ⟨.cons (hfate.mono (List.subset_append_left cs cs')) hall, hstored, hlines.cons line⟩
    | kept t' =>
      cases h' with
      | @cons _ fate' _ later hfate' hlater =>
        obtain ⟨hall, hstored, hlines⟩ := ih hrest hlater
        have hafter := hfate.after ht hfate'
        cases fate' with
        | kept t'' => exact ⟨.cons hafter hall, congrArg (t'' :: ·) hstored, hlines⟩
        | archived line => exact ⟨.cons hafter hall, hstored, (hlines.cons line).trans List.perm_middle.symm⟩

/-- What two stretches of a run conserve each, both of them do. -/
theorem Conserved.trans {cs cs' : List Bytes} {d d' d'' : Disk} (h : Conserved cs d d') (h' : Conserved cs' d' d'') :
    Conserved (cs ++ cs') d d'' := by
  obtain ⟨fates, added, hfates, hstored, hperm, hended⟩ := h.moved
  obtain ⟨later, added', hlater, hstored', hperm', hended'⟩ := h'.moved
  rw [hstored] at hlater
  obtain ⟨hall, hsettled, hlines⟩ := settle_fates (tasks_value d.store) hfates hlater
  refine ⟨⟨settle fates later, added ++ added', hall, hstored'.trans hsettled.symm, (hperm.append hperm').trans hlines.symm, ?_⟩,
    h'.ended, ?_⟩
  · rw [hended', hended, List.append_assoc]
  · rcases h'.loads with hsame | hload
    · rw [hsame]
      exact h.loads
    · exact .inr hload

def runPasses (disk : Disk) (passes : List Pass) : Disk := passes.foldl archivePass disk

/-- Every pass of the run is whole. -/
def AllWhole : Disk → List Pass → Prop
  | _, [] => True
  | disk, pass :: passes => Whole disk pass ∧ AllWhole (archivePass disk pass) passes

/-- From an archive of whole lines, over a run of whole passes: each task of the old store is in the store or has one
line more in the archive, only completed tasks of the contexts leave the store, and a store that was rewritten loads
back. -/
theorem archive_conserves (disk : Disk) (passes : List Pass) : (lined disk.archive).rest = [] → AllWhole disk passes →
    Conserved (passes.map Pass.contextId) disk (runPasses disk passes) := by
  intro hline hwhole
  induction passes generalizing disk with
  | nil => exact .refl _ hline
  | cons pass passes ih =>
    have hpass := pass_conserved hline hwhole.1
    exact hpass.trans (ih (archivePass disk pass) hpass.ended hwhole.2)

/-! ## One task -/

/-- A completed task in the form without a state of its own. -/
def oneMembers : List (Bytes × Bytes) :=
  [(lit "task_id", quoted (lit "t")), (lit "context_id", quoted (lit "c")), (lit "state", quoted (lit "completed"))]

def oneTask : Disk := ⟨some (objText [(lit "tasks", arrText [objText oneMembers])]), []⟩

theorem oneTask_tasks : tasks oneTask.store = [objText oneMembers] := by decide +kernel

theorem oneMembers_written : WrittenMembers oneMembers :=
  .key (by decide) (.text (lit "t")) (.key (by decide) (.text (lit "c")) (.key (by decide) (.text (lit "completed")) .nil))

theorem oneMembers_readable : Readable (objText oneMembers) := by
  refine ⟨fun ms hms m hm => ?_, by decide +kernel⟩
  rw [TextCodec.ObjText.unique hms oneMembers_written.objText] at hm
  have hall : ∀ m ∈ oneMembers, stringCopyWrite rtSmall (quoted m.1) = (m.1, true) := by decide +kernel
  exact ⟨m.1, hall m hm, plainKey_nulFree (oneMembers_written m hm).1⟩

example : isTask (lit "\x7b\x7d") = true := by decide +kernel

/-- One whole pass moves the task. -/
theorem one_pass_conserves : Conserved [lit "c"] oneTask (runPasses oneTask [⟨lit "c", 5, none⟩]) := by
  refine archive_conserves oneTask [⟨lit "c", 5, none⟩] rfl ⟨.completes ⟨rfl, by decide +kernel⟩ fun t ht _ => ?_, trivial⟩
  rw [oneTask_tasks, List.mem_singleton] at ht
  exact ht ▸ oneMembers_readable

theorem lines_length {cs : List Bytes} {ts : List JsonRef} {fates : List Fate} (h : List.Forall₂ (FateOf cs) ts fates) :
    (lines fates).length ≤ ts.length := by
  induction h with
  | nil => exact Nat.le_refl _
  | @cons _ fate _ _ _ _ ih =>
    cases fate with
    | kept => exact Nat.le_succ_of_le ih
    | archived => exact Nat.succ_le_succ ih

/-- A crash between the line and the store, and the next pass puts a second line for the task. -/
theorem interrupted_pass_repeats :
    ¬ Conserved [lit "c", lit "c"] oneTask (runPasses oneTask [⟨lit "c", 5, some ⟨1, 0⟩⟩, ⟨lit "c", 6, none⟩]) := by
  intro h
  obtain ⟨fates, added, hfates, -, hperm, hended⟩ := h.moved
  have htwo : (lined (runPasses oneTask [⟨lit "c", 5, some ⟨1, 0⟩⟩, ⟨lit "c", 6, none⟩]).archive).ended.length = 2 := by
    decide +kernel
  have hone := lines_length hfates
  have hold : (lined oneTask.archive).ended = [] := rfl
  rw [hended, hold, List.nil_append, hperm.length_eq] at htwo
  rw [oneTask_tasks, htwo] at hone
  exact absurd hone (by decide)

end Floofclaw.Guarantees.TaskArchives
