import Floofclaw.Source.AffairState

/-!
# The affair projection

`rt_affairs_active_state_json` of `affair_state.c`: the active affairs of a
context as agents see them, each printed through buffers of its own.
-/

set_option autoImplicit false

namespace Floofclaw.Source.AffairProjection
open Floofclaw.Lib Floofclaw.Source.Json Floofclaw.Source.AffairState
open Floofclaw.Source.StoreFile hiding writeStore

def notesBufLen : Nat := rtMed * 4

/-- The last three notes. -/
def recentNotes (a : AffairItem) : List AffairNote := a.notes.drop (if 3 < a.notes.length then a.notes.length - 3 else 0)

/-- A note as the projection escapes it. -/
def recentNoteText (n : AffairNote) : Option Bytes := do
  let ets ← mirror (rtSmall * 2) n.ts
  let etx ← mirror (rtMed * 2) n.text
  return objText [(lit "ts", quoted ets), (lit "text", quoted etx)]

/-- The loop over the notes: one that cannot be escaped is passed over, one that does not fit ends it. Only the
first note of the three goes without a comma. -/
def notesLoop : Bool → Bytes → List AffairNote → Bytes
  | _, buf, [] => buf
  | first, buf, n :: ns =>
    match recentNoteText n with
    | none => notesLoop false buf ns
    | some text =>
      let entry := separator first ++ text
      if buf.length + entry.length + 2 ≥ notesBufLen then buf else notesLoop false (buf ++ entry) ns

def notesBuf (a : AffairItem) : Bytes := notesLoop true (lit "[") (recentNotes a) ++ lit "]"

/-- `append_counters_array` into the buffer of the projection. -/
def countersBuf (a : AffairItem) : Option Bytes :=
  (arrayPieces 256 counterText a.counters).bind fun pieces => appendPieces rtLarge [] pieces

/-- One affair. -/
def activeRow (first : Bool) (a : AffairItem) : Option (List Bytes) := do
  let eid ← mirror rtMed a.affairId
  let emanage ← mirror (rtMed * 2) a.manage
  let estatus ← mirror rtMed (statusText a.status)
  let counters ← countersBuf a
  let item := separator first ++
    objText [(lit "affair_id", quoted eid), (lit "manage", quoted emanage), (lit "status", quoted estatus),
      (lit "note_count", decNat a.notes.length), (lit "recent_notes", notesBuf a),
      (lit "counter_count", decNat a.counters.length), (lit "counters", counters)]
  guard (item.length < rtLarge * 2)
  return [item]

/-- The affairs shown to a context; without one, those of all contexts. -/
def activeIn (contextId : Bytes) (st : AffairStore) : List AffairItem :=
  st.filter fun a => (contextId = [] || a.contextId = contextId) && a.status = .active

/-- The projection of the store in the text that was read. -/
def rtAffairsActiveStateJson (contextId : Bytes) (outLen : Nat) (text : Option Bytes) : Option Bytes :=
  (rtAppendText outLen [] (lit "\x7b\"active\":[")).bind fun out =>
    (writeRows outLen activeRow true out (activeIn contextId (loadStore text))).bind fun out => rtAppendText outLen out (lit "]\x7d")

end Floofclaw.Source.AffairProjection
