import Floofclaw.Source.JsonWrite

/-!
# Fields

The buffer sizes of `runtime.h`, and what bounded reads of JSON members leave
in their buffers. A field is the C string in its buffer.
-/

set_option autoImplicit false

namespace Floofclaw.Source.Json
open Floofclaw.Lib

def rtSmall : Nat := 128
def rtMed : Nat := 512
def rtLarge : Nat := 4096
def rtXl : Nat := 65536

/-- `rt_append_text`. -/
def rtAppendText (outLen : Nat) (out text : Bytes) : Option Bytes :=
  if out.length + text.length ≥ outLen then none else some (out ++ text)

def rtTaskIsEventType (type : Bytes) : Bool :=
  [lit "task_created", lit "task_updated", lit "task_working_memory_appended", lit "task_completed",
    lit "task_failed", lit "task_canceled", lit "work_completed", lit "work_blocked"].contains type

/-- A string field written without a look at the verdict. -/
def stringField (obj : JsonRef) (key : Bytes) (outLen : Nat) (old : Bytes) : Bytes :=
  match jsonRefObjectGet obj key with
  | none => old
  | some v =>
    match stringCopyWrite outLen v with
    | (out, true) => cstr out
    | (out, false) => overlay out old

theorem stringCopyWrite_of_copy {cap : Nat} {v : JsonRef} {s : Bytes} (h : jsonRefStringCopy cap v = some s) :
    ∃ out, stringCopyWrite cap v = (out, true) ∧ cstr out = s := by
  rcases hrun : stringCopyWrite cap v with ⟨out, _ | _⟩
  · rw [jsonRefStringCopy, hrun] at h
    cases h
  · rw [jsonRefStringCopy, hrun] at h
    exact ⟨out, rfl, Option.some.inj h⟩

theorem jsonCompactWrite_of_compact {cap : Nat} {s c : Bytes} (h : jsonCompact cap s = some c) :
    jsonCompactWrite cap s = (c, true) := by
  rcases hrun : jsonCompactWrite cap s with ⟨out, _ | _⟩
  · rw [jsonCompact, hrun] at h
    cases h
  · rw [jsonCompact, hrun] at h
    rw [Option.some.inj h]

/-- `json_escape` into a mirror; `none` aborts the write. -/
def mirror (outLen : Nat) (field : Bytes) : Option Bytes :=
  match jsonEscape outLen field with
  | (out, true) => some out
  | (_, false) => none

theorem mirror_eq {cap : Nat} {s : Bytes} (hs : NulFree s) :
    mirror cap s = if (escaped s).length < cap then some (escaped s) else none := by
  by_cases hfit : (escaped s).length < cap
  · rw [if_pos hfit, mirror, jsonEscape_complete (by rwa [cstr_eq_self hs]), cstr_eq_self hs]
  · rw [if_neg hfit, mirror]
    split
    · rename_i out hout
      obtain ⟨heq, hlt⟩ := jsonEscape_fits hout
      rw [cstr_eq_self hs] at heq
      exact absurd (heq ▸ hlt) hfit
    · rfl

/-- A C string that fits its buffer. -/
structure TextField (cap : Nat) (s : Bytes) : Prop where
  nulFree : NulFree s
  fits : s.length < cap

theorem TextField.copy {cap : Nat} {s : Bytes} (h : TextField cap s) :
    jsonRefStringCopy cap (quoted (escaped s)) = some s :=
  jsonRefStringCopy_escaped h.nulFree h.fits

/-- An object as a reader meets it. -/
structure CleanObject (obj : JsonRef) : Prop where
  text : ∃ ms, ObjText obj ms
  nulFree : NulFree obj

theorem CleanObject.of_top {text obj : Bytes} (h : jsonRefTopObject text = some obj) : CleanObject obj := by
  obtain ⟨hfrom, hms⟩ := jsonRefTopObject_sound h
  exact ⟨hms, jsonRefFromText_nulFree hfrom⟩

theorem CleanObject.get {obj key v : Bytes} (h : CleanObject obj) (hv : jsonRefObjectGet obj key = some v) :
    CleanValue v := by
  obtain ⟨ms, hms⟩ := h.text
  exact .get hms h.nulFree hv

theorem CleanObject.getObject {obj key v : Bytes} (h : CleanObject obj)
    (hv : jsonRefObjectGetObject obj key = some v) : CleanObject v := by
  rw [jsonRefObjectGetObject, Option.filter_eq_some_iff] at hv
  have hclean := h.get hv.1
  exact ⟨isValue_object hclean.value (by simpa using hv.2), hclean.nulFree⟩

theorem textField_nil {cap : Nat} (h : 0 < cap) : TextField cap [] := ⟨by simp [NulFree], h⟩

theorem getString_text {obj key out : Bytes} {cap : Nat} (h : jsonRefObjectGetString obj key cap = some out) :
    TextField cap out := by
  obtain ⟨v, -, hv⟩ := Option.bind_eq_some_iff.mp h
  exact ⟨jsonRefStringCopy_nulFree hv, jsonRefStringCopy_length hv⟩

theorem stringField_text {obj key old : Bytes} {cap : Nat} (hold : TextField cap old) :
    TextField cap (stringField obj key cap old) := by
  have hcap : 0 < cap := Nat.lt_of_le_of_lt (Nat.zero_le _) hold.fits
  unfold stringField
  split
  · exact hold
  · rename_i v hv
    have hlen := stringCopyWrite_length hcap v
    split
    · rename_i out hout
      rw [hout] at hlen
      exact ⟨cstr_nulFree _, Nat.lt_of_le_of_lt (cstr_length_le _) hlen⟩
    · rename_i out hout
      rw [hout] at hlen
      exact ⟨overlay_nulFree _ _, overlay_length_lt hlen hold.fits⟩

theorem clip_text {cap : Nat} (hcap : 0 < cap) {s : Bytes} (hs : NulFree s) : TextField cap (clip cap s) :=
  ⟨clip_nulFree hs, clip_length_lt hcap s⟩

end Floofclaw.Source.Json
