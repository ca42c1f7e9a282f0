import Floofclaw.Guarantees.Affairs
import Floofclaw.Guarantees.FirstLine
import Floofclaw.Guarantees.OperationFits
import Floofclaw.Guarantees.SoundValues
import Floofclaw.Source.AffairProjection

/-!
# What agents see of the affairs

An affair that was written to the store fits every buffer of its projection but
one: the notes. The projection of a stored store is an object that lists each
active affair with its texts and counters, and with its recent notes as far as
they fit.
-/

set_option autoImplicit false

namespace Floofclaw.Guarantees.AffairProjections
open Floofclaw.Lib Floofclaw.Source.Json Floofclaw.Source.AffairState Floofclaw.Source.AffairProjection
open Floofclaw.Source.StoreFile hiding writeStore
open Floofclaw.Guarantees.TaskStoreText (InLong elemsText_cons)
open Floofclaw.Guarantees.FirstEvent (PlainText plain_clean)
open Floofclaw.Guarantees.OperationRecords (getString_printed)
open Floofclaw.Guarantees.SoundValues (Sound SoundMembers)
open Floofclaw.Guarantees.StoreText Floofclaw.Guarantees.AffairStoreText Floofclaw.Guarantees.Affairs
open Floofclaw.Guarantees.OperationFits (RowIff RowsOk rowsText rowsText_cons writeRows_iff mirror_room mirrored)

/-! ## Arrays in a buffer -/

theorem behindComma_bounded {xs : List Bytes} {b : Nat} (h : ∀ x ∈ xs, x.length ≤ b) :
    (xs.flatMap fun x => ch ',' :: x).length ≤ xs.length * (b + 1) := by
  induction xs with
  | nil => exact Nat.zero_le _
  | cons x xs ih =>
    obtain ⟨hx, hxs⟩ := List.forall_mem_cons.mp h
    have hrest := ih hxs
    rw [List.flatMap_cons, List.length_append, List.length_cons, List.length_cons, Nat.succ_mul]
    omega

theorem arrText_bounded {xs : List Bytes} {b : Nat} (h : ∀ x ∈ xs, x.length ≤ b) : (arrText xs).length ≤ 2 + xs.length * (b + 1) := by
  rw [arrText, List.length_cons, List.length_append, List.length_singleton]
  cases xs with
  | nil => simp [elemsText]
  | cons x xs =>
    obtain ⟨hx, hxs⟩ := List.forall_mem_cons.mp h
    have hrest := behindComma_bounded hxs
    rw [elemsText_cons, List.length_append, List.length_cons, Nat.succ_mul]
    omega

theorem appendPieces_room {cap : Nat} {out : Bytes} {pieces : List Bytes} (h : (out ++ pieces.flatten).length < cap) :
    appendPieces cap out pieces = some (out ++ pieces.flatten) := by
  induction pieces generalizing out with
  | nil => rw [appendPieces, List.flatten_nil, List.append_nil]
  | cons piece pieces ih =>
    rw [List.flatten_cons, ← List.append_assoc] at h ⊢
    have hpiece : rtAppendText cap out piece = some (out ++ piece) := by
      refine rtAppendText_eq_some.mpr ⟨rfl, ?_⟩
      rw [List.length_append] at h
      omega
    rw [appendPieces, hpiece, Option.bind_some, ih h]

theorem arrayItems_room {β : Type} {cap : Nat} {text : β → Option Bytes} {shown : β → Bytes} {xs : List β}
    (h : ∀ x ∈ xs, text x = some (shown x) ∧ (shown x).length + 1 < cap) (first : Bool) :
    ∃ ps, arrayItems cap text first xs = some ps := by
  induction xs generalizing first with
  | nil => exact ⟨[], rfl⟩
  | cons x xs ih =>
    obtain ⟨⟨htext, hroom⟩, hxs⟩ := List.forall_mem_cons.mp h
    obtain ⟨rest, hrest⟩ := ih hxs false
    have hitem : (guard ((separator first ++ shown x).length < cap) : Option Unit) = some () := by
      refine if_pos ?_
      have hcomma : (separator first).length ≤ 1 := by cases first <;> decide
      rw [List.length_append]
      omega
    refine ⟨(separator first ++ shown x) :: rest, ?_⟩
    simp only [arrayItems, Option.bind_eq_bind, htext, Option.bind_some, hitem, hrest]
    rfl

theorem arrayPieces_room {β : Type} {cap : Nat} {text : β → Option Bytes} {shown : β → Bytes} {xs : List β}
    (h : ∀ x ∈ xs, text x = some (shown x) ∧ (shown x).length + 1 < cap) :
    ∃ ps, arrayPieces cap text xs = some ps ∧ ps.flatten = arrText (xs.map shown) := by
  obtain ⟨items, hitems⟩ := arrayItems_room h true
  have hpieces : arrayPieces cap text xs = some (lit "[" :: (items ++ [lit "]"])) := by rw [arrayPieces, hitems, Option.map_some]
  refine ⟨_, hpieces, arrayPieces_flatten (fun x hx e he => ?_) hpieces⟩
  rw [(h x hx).1] at he
  exact (Option.some.inj he).symm

/-! ## Counters -/

theorem shownCounter_length {c : AffairCounter} (h : CounterOk c) : (shownCounter c).length ≤ 226 := by
  have hname := (escaped_length c.name).2
  have hfits := h.name.fits
  have hvalue : (decInt c.value).length ≤ 19 + 1 := by
    refine decInt_length (by decide) ?_
    obtain ⟨hlo, hhi⟩ := h.value
    unfold int64Min at hlo
    unfold int64Max at hhi
    omega
  have hkeys : (lit "name").length = 4 ∧ (lit "value").length = 5 := ⟨lit_length _, lit_length _⟩
  simp only [counterNameMax] at hfits
  simp only [shownCounter, objText, membersText, quoted, List.length_append, List.length_cons, List.length_nil, hkeys]
  omega

theorem counterText_ok {c : AffairCounter} (h : CounterOk c) : counterText c = some (shownCounter c) := by
  have hroom : (escaped c.name).length < counterNameMax * 6 + 1 := by
    have hname := (escaped_length c.name).2
    have hfits := h.name.fits
    omega
  rw [counterText, mirror_room h.name.nulFree hroom]
  rfl

/-- The counters of an affair fit their buffer, whatever their names are. -/
theorem countersBuf_eq {a : AffairItem} (h : Printable a) :
    countersBuf a = some (arrText (a.counters.map shownCounter)) ∧ (arrText (a.counters.map shownCounter)).length ≤ 3634 := by
  have hroom := h.counterRoom
  have hlen : (arrText (a.counters.map shownCounter)).length ≤ 3634 := by
    have hall : ∀ x ∈ a.counters.map shownCounter, x.length ≤ 226 := by
      intro x hx
      obtain ⟨c, hc, rfl⟩ := List.mem_map.mp hx
      exact shownCounter_length (h.counters c hc)
    have hbound := arrText_bounded hall
    rw [List.length_map] at hbound
    simp only [affairMaxCounters] at hroom
    omega
  obtain ⟨ps, hps, hflat⟩ := arrayPieces_room (fun c hc => ⟨counterText_ok (h.counters c hc),
    Nat.lt_of_le_of_lt (Nat.succ_le_succ (shownCounter_length (h.counters c hc))) (by decide : 227 < 256)⟩)
  refine ⟨?_, hlen⟩
  rw [countersBuf, hps, Option.bind_some, appendPieces_room, hflat, List.nil_append]
  rw [hflat, List.nil_append]
  exact Nat.lt_of_le_of_lt hlen (by decide)

/-! ## Notes -/

/-- The notes the loop takes into a buffer that holds `np` octets: those before the first that does not fit. -/
def fitting : Nat → Bool → List AffairNote → List AffairNote
  | _, _, [] => []
  | np, first, n :: ns =>
    let entry := separator first ++ shownNote n
    if np + entry.length + 2 ≥ notesBufLen then [] else n :: fitting (np + entry.length) false ns

/-- A note the projection can escape. -/
def NoteEscapes (n : AffairNote) : Prop := recentNoteText n = some (shownNote n)

theorem notesLoop_eq {ns : List AffairNote} (h : ∀ n ∈ ns, NoteEscapes n) (first : Bool) (buf : Bytes) :
    notesLoop first buf ns = buf ++ rowsText shownNote first (fitting buf.length first ns) := by
  have hnil : ∀ first, rowsText shownNote first [] = [] := fun first => by cases first <;> rfl
  induction ns generalizing first buf with
  | nil => rw [notesLoop, fitting, hnil, List.append_nil]
  | cons n ns ih =>
    obtain ⟨hn, hns⟩ := List.forall_mem_cons.mp h
    rw [notesLoop, hn, fitting]
    dsimp only
    split
    · rw [hnil, List.append_nil]
    · rw [ih hns, rowsText_cons, List.length_append, List.append_assoc]

theorem notesLoop_length {first : Bool} {buf : Bytes} (h : buf.length + 2 < notesBufLen) (ns : List AffairNote) :
    (notesLoop first buf ns).length + 2 < notesBufLen := by
  induction ns generalizing first buf with
  | nil => exact h
  | cons n ns ih =>
    rw [notesLoop]
    split
    · exact ih h
    · dsimp only
      split
      · exact h
      · rename_i hroom
        refine ih ?_
        rw [List.length_append]
        omega

theorem notesBuf_length (a : AffairItem) : (notesBuf a).length ≤ 2047 := by
  have hloop : (notesLoop true (lit "[") (recentNotes a)).length + 2 < notesBufLen :=
    notesLoop_length (show (lit "[").length + 2 < notesBufLen by decide) (recentNotes a)
  have hclose : (lit "]").length = 1 := by decide
  have hbuf : notesBufLen = 2048 := rfl
  rw [notesBuf, List.length_append]
  omega

theorem fitting_subset {np : Nat} {first : Bool} {ns : List AffairNote} : ∀ n ∈ fitting np first ns, n ∈ ns := by
  induction ns generalizing np first with
  | nil => exact fun n hn => hn
  | cons n ns ih =>
    intro x hx
    rw [fitting] at hx
    split at hx
    · cases hx
    · rcases List.mem_cons.mp hx with rfl | hx
      · exact List.mem_cons_self
      · exact List.mem_cons_of_mem _ (ih x hx)

theorem fitting_all_iff {np : Nat} {first : Bool} {ns : List AffairNote} (h : np + 2 < notesBufLen) :
    fitting np first ns = ns ↔ np + (rowsText shownNote first ns).length + 2 < notesBufLen := by
  induction ns generalizing np first with
  | nil =>
    have hnil : rowsText shownNote first [] = [] := by cases first <;> rfl
    rw [hnil, fitting]
    exact iff_of_true rfl h
  | cons n ns ih =>
    rw [fitting, rowsText_cons]
    simp only [List.length_append]
    split
    · rename_i hfull
      refine iff_of_false (fun heq => ?_) (by omega)
      cases heq
    · rename_i hroom
      rw [List.cons_inj_right, ih (by omega)]
      constructor <;> intro hlen <;> omega

/-- The recent notes fit the buffer of the projection. -/
def NotesFit (a : AffairItem) : Prop := (arrText ((recentNotes a).map shownNote)).length + 1 < notesBufLen

theorem notesBuf_eq {a : AffairItem} (h : ∀ n ∈ recentNotes a, NoteEscapes n) :
    notesBuf a = arrText ((fitting 1 true (recentNotes a)).map shownNote) := by
  have hopen : lit "[" = [ch '['] := rfl
  rw [notesBuf, notesLoop_eq h, rowsText, if_pos rfl, arrText, hopen]
  simp [lit]

theorem fitting_recent_iff (a : AffairItem) : fitting 1 true (recentNotes a) = recentNotes a ↔ NotesFit a := by
  rw [fitting_all_iff (by decide), NotesFit, arrText, rowsText, if_pos rfl, List.length_cons, List.length_append, List.length_singleton]
  constructor <;> intro hlen <;> omega

/-! ## A stored affair -/

/-- What the store's own buffers leave of an affair. -/
structure Stored (a : AffairItem) : Prop where
  ok : ItemOk a
  id : (escaped a.affairId).length < rtMed
  manage : (escaped a.manage).length < rtMed * 2
  notes : ∀ n ∈ a.notes, PlainText n.ts ∧ (escaped n.text).length < rtMed * 2

theorem recentNotes_subset {a : AffairItem} {n : AffairNote} (h : n ∈ recentNotes a) : n ∈ a.notes := List.mem_of_mem_drop h

theorem Stored.noteEscapes {a : AffairItem} (h : Stored a) {n : AffairNote} (hn : n ∈ recentNotes a) : NoteEscapes n := by
  have hmem := recentNotes_subset hn
  have hok := h.ok.printable.notes n hmem
  obtain ⟨hplain, htext⟩ := h.notes n hmem
  have hts : (escaped n.ts).length < rtSmall * 2 := by
    rw [escaped_plain hplain]
    have hfits := hok.ts.fits
    omega
  simp only [NoteEscapes, recentNoteText, Option.bind_eq_bind, mirror_room hok.ts.nulFree hts, mirror_room hok.text.nulFree htext,
    Option.bind_some]
  rfl

/-- The members of an affair in the projection. -/
def activeMembers (a : AffairItem) : List (Bytes × Bytes) :=
  [(lit "affair_id", quoted (escaped a.affairId)), (lit "manage", quoted (escaped a.manage)),
    (lit "status", quoted (escaped (statusText a.status))), (lit "note_count", decNat a.notes.length),
    (lit "recent_notes", arrText ((fitting 1 true (recentNotes a)).map shownNote)), (lit "counter_count", decNat a.counters.length),
    (lit "counters", arrText (a.counters.map shownCounter))]

def activeText (a : AffairItem) : Bytes := objText (activeMembers a)

theorem activeText_length {a : AffairItem} (h : Stored a) : (activeText a).length ≤ 8000 := by
  have hid := h.id
  have hmanage := h.manage
  have hstatus : (escaped (statusText a.status)).length ≤ 6 := by cases a.status <;> decide
  have hnotes := notesBuf_length a
  rw [notesBuf_eq fun n => h.noteEscapes] at hnotes
  have hcounters := (countersBuf_eq h.ok.printable).2
  have hsmall : ∀ n, n ≤ 16 → (decNat n).length ≤ 2 := by decide
  have hcount := hsmall _ h.ok.printable.noteRoom
  have hcount' := hsmall _ h.ok.printable.counterRoom
  have hkeys : (lit "affair_id").length = 9 ∧ (lit "manage").length = 6 ∧ (lit "status").length = 6 ∧ (lit "note_count").length = 10 ∧
      (lit "recent_notes").length = 12 ∧ (lit "counter_count").length = 13 ∧ (lit "counters").length = 8 := ⟨lit_length _, lit_length _, lit_length _, lit_length _, lit_length _, lit_length _, lit_length _⟩
  simp only [rtMed] at hid hmanage
  rw [activeText, objText_length (by simp [activeMembers])]
  simp only [activeMembers, List.map_cons, List.map_nil, List.sum_cons, List.sum_nil, quoted, List.length_cons, List.length_append,
    List.length_nil, hkeys]
  omega

theorem activeRow_iff {a : AffairItem} (h : Stored a) : RowIff activeRow activeText (fun _ _ => True) a := by
  have hstatus : mirror rtMed (statusText a.status) = some (escaped (statusText a.status)) := by cases a.status <;> decide
  have hp := h.ok.printable
  have hrow : ∀ first, activeRow first a = some [separator first ++ activeText a] := by
    intro first
    have hlen : (separator first ++ activeText a).length < rtLarge * 2 := by
      have hcomma : (separator first).length ≤ 1 := by cases first <;> decide
      have htext := activeText_length h
      simp only [List.length_append, rtLarge]
      omega
    have hguard : (guard ((separator first ++ activeText a).length < rtLarge * 2) : Option Unit) = some () := if_pos hlen
    unfold activeRow
    simp only [Option.bind_eq_bind, mirror_room hp.affairId.nulFree h.id, mirror_room hp.manage.nulFree h.manage, hstatus,
      (countersBuf_eq hp).1, Option.bind_some, notesBuf_eq fun n => h.noteEscapes (n := n)]
    rw [← activeMembers, ← activeText, hguard]
    rfl
  intro first pieces
  rw [hrow first, Option.some.injEq, true_and, eq_comm]

/-! ## The projection of a store -/

def projectionText (as : List AffairItem) : Bytes := objText [(lit "active", arrText (as.map activeText))]

theorem projection_iff {contextId : Bytes} {text : Option Bytes} (h : ∀ a ∈ loadStore text, Stored a) {outLen : Nat} {r : Bytes} :
    rtAffairsActiveStateJson contextId outLen text = some r ↔
      r = projectionText (activeIn contextId (loadStore text)) ∧ r.length < outLen := by
  have hrows : ∀ a ∈ activeIn contextId (loadStore text), RowIff activeRow activeText (fun _ _ => True) a :=
    fun a ha => activeRow_iff (h a (List.mem_of_mem_filter ha))
  have hok : ∀ (first : Bool) (as : List AffairItem), RowsOk (fun _ _ => True) first as := by
    intro first as
    induction as generalizing first with
    | nil => trivial
    | cons a as ih => exact ⟨trivial, ih false⟩
  unfold rtAffairsActiveStateJson
  generalize activeIn contextId (loadStore text) = as at hrows ⊢
  have hsplit : projectionText as = lit "\x7b\"active\":[" ++ rowsText activeText true as ++ lit "]\x7d" := by
    rw [rowsText, if_pos rfl]
    simp [projectionText, objText, membersText, arrText, quoted, lit]
  rw [hsplit]
  constructor
  · intro hr
    obtain ⟨head, hhead, hr⟩ := Option.bind_eq_some_iff.mp hr
    obtain ⟨out, hout, hr⟩ := Option.bind_eq_some_iff.mp hr
    obtain ⟨hheadText, hheadLen⟩ := rtAppendText_eq_some.mp hhead
    obtain ⟨-, houtText, -⟩ := (writeRows_iff hrows hheadLen).mp hout
    obtain ⟨hrText, hrLen⟩ := rtAppendText_eq_some.mp hr
    rw [houtText, hheadText, List.nil_append] at hrText
    exact ⟨hrText, hrLen⟩
  · rintro ⟨hr, hroom⟩
    have hparts := congrArg List.length hr
    rw [List.length_append, List.length_append] at hparts
    have hhead : rtAppendText outLen [] (lit "\x7b\"active\":[") = some (lit "\x7b\"active\":[") :=
      rtAppendText_eq_some.mpr ⟨rfl, by omega⟩
    have hlen : (lit "\x7b\"active\":[" ++ rowsText activeText true as).length < outLen := by
      rw [List.length_append]
      omega
    rw [hhead, Option.bind_some, (writeRows_iff hrows (by omega)).mpr ⟨hok true as, rfl, hlen⟩, Option.bind_some]
    exact rtAppendText_eq_some.mpr ⟨hr, hroom⟩

theorem projection_eq {contextId : Bytes} {text : Option Bytes} (h : ∀ a ∈ loadStore text, Stored a) {outLen : Nat}
    (hroom : (projectionText (activeIn contextId (loadStore text))).length < outLen) :
    rtAffairsActiveStateJson contextId outLen text = some (projectionText (activeIn contextId (loadStore text))) :=
  (projection_iff h).mpr ⟨rfl, hroom⟩

/-! ## Reading the projection -/

/-- What an entry of the projection says of its affair, its notes apart. -/
structure ShowsAffair (item : JsonRef) (a : AffairItem) : Prop where
  object : jsonRefInferType item = .object
  id : jsonRefObjectGetString item (lit "affair_id") rtSmall = some a.affairId
  manage : jsonRefObjectGetString item (lit "manage") rtMed = some a.manage
  noteCount : jsonRefObjectGetLong item (lit "note_count") 0 = ((a.notes.length : Int), true)
  counterCount : jsonRefObjectGetLong item (lit "counter_count") 0 = ((a.counters.length : Int), true)
  counters : (memberEntries item (lit "counters")).foldl loadCounter [] = a.counters

def ShowsNotes (item : JsonRef) (a : AffairItem) : Prop :=
  (memberEntries item (lit "recent_notes")).map loadNote = (recentNotes a).map some

/-- A projection that is one object, and lists each affair in its order. -/
structure Lists (text : Bytes) (as : List AffairItem) : Prop where
  json : Dialect.rfc8259.Derives .value text
  object : jsonRefTopObject text = some text
  affairs : List.Forall₂ ShowsAffair (storeRows (lit "active") (some text)) as

/-- It also has the recent notes of each. -/
structure Complete (text : Bytes) (as : List AffairItem) : Prop extends Lists text as where
  notes : List.Forall₂ ShowsNotes (storeRows (lit "active") (some text)) as

theorem shownNote_sound (n : AffairNote) : Sound (shownNote n) := .obj (.cons (plainKey_lit (by decide)) (.text _) (.cons (plainKey_lit (by decide)) (.text _) .nil))

theorem shownCounter_clean (c : AffairCounter) : CleanValue (shownCounter c) := .objText (shownCounter_written c)

theorem activeMembers_sound (a : AffairItem) : SoundMembers (activeMembers a) := by
  have hnotes : ∀ x ∈ (fitting 1 true (recentNotes a)).map shownNote, Sound x := by
    intro x hx
    obtain ⟨n, -, rfl⟩ := List.mem_map.mp hx
    exact shownNote_sound n
  have hcounters : ∀ x ∈ a.counters.map shownCounter, Sound x := by
    intro x hx
    obtain ⟨c, -, rfl⟩ := List.mem_map.mp hx
    exact .obj (.cons (plainKey_lit (by decide)) (.text _) (.cons (plainKey_lit (by decide)) (.int _) .nil))
  have hcount : ∀ n : Nat, Sound (decNat n) := fun n => Sound.int n
  exact .cons (plainKey_lit (by decide)) (.text _) (.cons (plainKey_lit (by decide)) (.text _) (.cons (plainKey_lit (by decide)) (.text _) (.cons (plainKey_lit (by decide)) (hcount _)
    (.cons (plainKey_lit (by decide)) (.arr hnotes) (.cons (plainKey_lit (by decide)) (hcount _) (.cons (plainKey_lit (by decide)) (.arr hcounters) .nil))))))

section Entry
variable (a : AffairItem)

theorem active_get (key : Bytes) : jsonRefObjectGet (activeText a) key = assoc key (activeMembers a) :=
  (activeMembers_sound a).written.get key

theorem active_entries {key : Bytes} {xs : List Bytes} (hassoc : assoc key (activeMembers a) = some (arrText xs))
    (hxs : ∀ x ∈ xs, CleanValue x) : memberEntries (activeText a) key = xs := by
  have hread : ArrText (arrText xs) xs := arrText_reads fun x hx => (hxs x hx).value
  have harr : jsonRefObjectGetArray (activeText a) key = some (arrText xs) := by
    rw [jsonRefObjectGetArray, active_get, hassoc, Option.filter_some, if_pos (by simpa using ArrText.inferType hread)]
  rw [memberEntries, harr]
  exact TaskStoreText.arrayEntries_eq hread

theorem active_notes : (memberEntries (activeText a) (lit "recent_notes")) = (fitting 1 true (recentNotes a)).map shownNote :=
  active_entries a rfl (mapped_clean (fun n => (shownNote_sound n).clean) _)

variable {a} (h : Stored a)
include h

theorem active_shows : ShowsAffair (activeText a) a := by
  have hp := h.ok.printable
  have hlong : ∀ n : Nat, n ≤ 16 → InLong (n : Int) := by
    intro n hn
    constructor
    · unfold int64Min
      omega
    · unfold int64Max
      omega
  have hcount : ∀ {key : Bytes} {n : Nat}, n ≤ 16 → assoc key (activeMembers a) = some (decNat n) →
      jsonRefObjectGetLong (activeText a) key 0 = ((n : Int), true) :=
    fun hn hget => OperationRecords.getLong_printed (hlong _ hn) ((active_get a _).trans hget) 0
  refine ⟨ObjText.inferType (activeMembers_sound a).written.objText, getString_printed hp.affairId (active_get a _),
    getString_printed hp.manage (active_get a _), hcount hp.noteRoom rfl, hcount hp.counterRoom rfl, ?_⟩
  rw [active_entries a rfl (mapped_clean shownCounter_clean _)]
  exact loadCounters_shown (show ∀ c ∈ [] ++ a.counters, CounterOk c from hp.counters) hp.counterRoom hp.counterNames

theorem active_notes_iff : ShowsNotes (activeText a) a ↔ NotesFit a := by
  have hloaded : ((fitting 1 true (recentNotes a)).map shownNote).map loadNote = (fitting 1 true (recentNotes a)).map some := by
    rw [List.map_map]
    refine List.map_congr_left fun n hn => loadNote_shown (h.ok.printable.notes n ?_)
    exact recentNotes_subset (fitting_subset n hn)
  rw [ShowsNotes, active_notes, hloaded, ← fitting_recent_iff]
  exact List.map_inj_right fun _ _ => Option.some.inj

end Entry

theorem projection_rows (as : List AffairItem) : storeRows (lit "active") (some (projectionText as)) = as.map activeText := by
  have hclean : ∀ x ∈ as.map activeText, CleanValue x := mapped_clean (fun a => (Sound.obj (activeMembers_sound a)).clean) as
  have hms : WrittenMembers [(lit "active", arrText (as.map activeText))] := .key (by decide) (.arrText hclean) .nil
  have htop : jsonRefTopObject (projectionText as) = some (projectionText as) :=
    jsonRefTopObject_complete hms.objText (CleanValue.objText hms).nulFree
  have hread : ArrText (arrText (as.map activeText)) (as.map activeText) := arrText_reads fun x hx => (hclean x hx).value
  have harr : storeArray (lit "active") (some (projectionText as)) = some (arrText (as.map activeText)) := by
    simp only [storeArray, Option.bind_some, htop, jsonRefObjectGetArray]
    rw [projectionText, hms.get, assoc, if_pos rfl, Option.filter_some, if_pos (by simpa using ArrText.inferType hread)]
  rw [storeRows, harr]
  exact TaskStoreText.arrayEntries_eq hread

theorem projection_lists {as : List AffairItem} (h : ∀ a ∈ as, Stored a) : Lists (projectionText as) as := by
  have hsound : SoundMembers [(lit "active", arrText (as.map activeText))] := by
    refine .cons (plainKey_lit (by decide)) (.arr fun x hx => ?_) .nil
    obtain ⟨a, -, rfl⟩ := List.mem_map.mp hx
    exact .obj (activeMembers_sound a)
  refine ⟨(Sound.obj hsound).json, ?_, ?_⟩
  · exact jsonRefTopObject_complete hsound.written.objText (Sound.obj hsound).clean.nulFree
  · rw [projection_rows, List.forall₂_map_left_iff, List.forall₂_same]
    exact fun a ha => active_shows (h a ha)

theorem projection_notes_iff {as : List AffairItem} (h : ∀ a ∈ as, Stored a) :
    List.Forall₂ ShowsNotes (storeRows (lit "active") (some (projectionText as))) as ↔ ∀ a ∈ as, NotesFit a := by
  rw [projection_rows, List.forall₂_map_left_iff, List.forall₂_same]
  exact forall₂_congr fun a ha => active_notes_iff (h a ha)

/-! ## What the reducers keep -/

/-- An affair within its bounds, with times as the reducers print them. -/
structure Kept (a : AffairItem) : Prop where
  ok : ItemOk a
  stamped : ∀ n ∈ a.notes, PlainText n.ts

theorem isoTsForMs_plain (ms : Int) : PlainText (isoTsForMs ms) := by
  have hpad : ∀ n, PlainText (decPadded 2 n) := fun n c hc => FirstEvent.isDigit_plain (decPadded_digits 2 n c hc)
  have hdash : PlainText (lit "-") := .of_all (by decide)
  have ht : PlainText (lit "T") := .of_all (by decide)
  have hcolon : PlainText (lit ":") := .of_all (by decide)
  have hz : PlainText (lit "Z") := .of_all (by decide)
  have hyear : ∀ z : Int, PlainText (decInt z) := by
    rintro (n | n)
    · exact fun c hc => FirstEvent.isDigit_plain (decNat_digits n c hc)
    · exact List.forall_mem_cons.mpr ⟨by decide, fun c hc => FirstEvent.isDigit_plain (decNat_digits _ c hc)⟩
  have hdate : ∀ d : CivilDate, PlainText (dateText d) := fun d => ((((hyear d.year).append hdash).append (hpad _)).append hdash).append (hpad _)
  exact (((((((hdate _).append ht).append (hpad _)).append hcolon).append (hpad _)).append hcolon).append (hpad _)).append hz

theorem noteAppend_stamped (now ms : Int) (text : Bytes) {a : AffairItem} (h : ∀ n ∈ a.notes, PlainText n.ts) :
    ∀ n ∈ (noteAppend now ms text a).notes, PlainText n.ts := by
  unfold noteAppend
  split
  · exact h
  · intro n hn
    rcases mem_pushBounded hn with hn | rfl
    · exact h n hn
    · exact isoTsForMs_plain _

theorem createdItem_kept {now : Int} (hnow : InLong now) {p : AffairPatch} (hp : PatchOk p) (hmanage : p.manage ≠ []) :
    Kept (createdItem now p) :=
  ⟨(createdItem_ok hnow hp hmanage).1, noteAppend_stamped _ _ _ (List.forall_mem_nil _)⟩

theorem patchedItem_kept {now : Int} (hnow : InLong now) {p : AffairPatch} (hp : PatchOk p) {a : AffairItem} (h : Kept a) :
    Kept (patchedItem now p a) := by
  refine ⟨patchedItem_ok hnow hp h.ok, ?_⟩
  unfold patchedItem
  dsimp only
  split
  · refine noteAppend_stamped now p.updatedMs p.noteText ?_
    split
    · exact h.stamped
    · exact h.stamped
  · exact h.stamped

/-- Every affair of a store, and their number. -/
def KeptStore (st : AffairStore) : Prop := (∀ a ∈ st, Kept a) ∧ st.length ≤ affairMaxItems

theorem changeAffair_kept {id : Bytes} {f : AffairItem → Option AffairItem} {st st' : AffairStore} (hst : KeptStore st)
    (hf : ∀ a a', f a = some a' → Kept a → Kept a') (h : changeAffair id f st = some st') : KeptStore st' := by
  unfold changeAffair at h
  split at h
  · cases h
  · rename_i a hfind
    obtain ⟨a', ha', rfl⟩ := Option.map_eq_some_iff.mp h
    obtain ⟨rfl, -, hfirst⟩ := affairFind_some hfind
    have hperm := modifyFirst_perm hfirst a'
    refine ⟨fun b hb => ?_, ?_⟩
    · rcases List.mem_cons.mp (hperm.mem_iff.mp hb) with rfl | hb
      · exact hf a b ha' (hst.1 a (List.mem_of_find?_eq_some hfirst))
      · exact hst.1 b (List.mem_of_mem_eraseP hb)
    · rw [affairUpdate, length_modifyFirst]
      exact hst.2

theorem applyAffairPatch_kept {now : Int} (hnow : InLong now) {p : AffairPatch} (hp : PatchOk p) {st st' : AffairStore}
    (hst : KeptStore st) (h : applyAffairPatch now p st = some st') : KeptStore st' := by
  unfold applyAffairPatch at h
  split at h
  · split at h
    · cases h
    · rename_i hguard
      cases h
      simp only [not_or] at hguard
      refine ⟨List.forall_mem_cons.mpr ⟨createdItem_kept hnow hp hguard.2.1, hst.1⟩, ?_⟩
      rw [List.length_cons]
      omega
  · split at h
    · cases h
    · rename_i a hfind
      split at h
      · cases h
      · cases h
        obtain ⟨-, -, hfirst⟩ := affairFind_some hfind
        have hmem := List.mem_of_find?_eq_some hfirst
        have hlen := (perm_cons_eraseP hfirst).length_eq
        rw [List.length_cons] at hlen
        refine ⟨List.forall_mem_cons.mpr ⟨patchedItem_kept hnow hp (hst.1 a hmem), ?_⟩, ?_⟩
        · exact fun b hb => hst.1 b (List.mem_of_mem_eraseP hb)
        · rw [List.length_cons, ← hlen]
          exact hst.2

theorem applyNoteAdded_kept {now : Int} (hnow : InLong now) {payload : JsonRef} {st st' : AffairStore} (hst : KeptStore st)
    (h : applyNoteAdded now payload st = some st') : KeptStore st' := by
  simp only [applyNoteAdded, Option.bind_eq_bind, Option.bind_eq_some_iff] at h
  obtain ⟨id, -, text, htext, -, -, hchange⟩ := h
  have hms : InLong (jsonRefObjectGetLong payload (lit "ts_ms") 0).1 := OperationRecords.getLong_inLong payload (lit "ts_ms")
  generalize (jsonRefObjectGetLong payload (lit "ts_ms") 0).1 = ms at hms hchange
  refine changeAffair_kept hst (fun a a' ha hkept => ?_) hchange
  cases ha
  have hnoted := noteAppend_ok hkept.ok hnow hms (getString_text htext).nulFree
  refine ⟨⟨{ hnoted.printable with updatedMs := ?_ }, hnoted.taskIds⟩, noteAppend_stamped now ms text hkept.stamped⟩
  dsimp only
  split
  · exact hms
  · exact hnow

theorem applyCounterBump_kept {now : Int} (hnow : InLong now) {payload : JsonRef} {st st' : AffairStore} (hst : KeptStore st)
    (h : applyCounterBump now payload st = some st') : KeptStore st' := by
  simp only [applyCounterBump, Option.bind_eq_bind, Option.bind_eq_some_iff] at h
  obtain ⟨id, hid, name, hname, _, hguard, op, hop, hchange⟩ := h
  have hne : name ≠ [] := (Option.guard_eq_some' _).mp hguard
  refine changeAffair_kept hst (fun a a' ha hkept => ?_) hchange
  obtain ⟨counters, hbump, rfl⟩ := Option.map_eq_some_iff.mp ha
  have hp := hkept.ok.printable
  obtain ⟨hcs, hroom, hnames⟩ := counterBump_ok hp.counters hp.counterRoom hp.counterNames (counterOpOf_ok hop) (getString_text hname) hne
    hbump
  exact ⟨⟨{ hp with counters := hcs, counterRoom := hroom, counterNames := hnames, updatedMs := hnow }, hkept.ok.taskIds⟩, hkept.stamped⟩

theorem applyTaskLinked_kept {now : Int} (hnow : InLong now) {payload : JsonRef} {st st' : AffairStore} (hst : KeptStore st)
    (h : applyTaskLinked now payload st = some st') : KeptStore st' := by
  simp only [applyTaskLinked, Option.bind_eq_bind, Option.bind_eq_some_iff] at h
  obtain ⟨id, -, taskId, htask, -, -, hchange⟩ := h
  refine changeAffair_kept hst (fun a a' ha hkept => ?_) hchange
  cases ha
  have hlinked := taskIdLink_ok hkept.ok (getString_text htask)
  have hnotes : (taskIdLink taskId a).notes = a.notes := by
    unfold taskIdLink
    split <;> rfl
  refine ⟨⟨{ hlinked.printable with updatedMs := hnow }, hlinked.taskIds⟩, ?_⟩
  dsimp only
  rw [hnotes]
  exact hkept.stamped

theorem applyReviewed_kept {now : Int} (hnow : InLong now) {payload : JsonRef} {st st' : AffairStore} (hst : KeptStore st)
    (h : applyReviewed now payload st = some st') : KeptStore st' := by
  simp only [applyReviewed, Option.bind_eq_bind, Option.bind_eq_some_iff] at h
  obtain ⟨id, -, hchange⟩ := h
  have hms : InLong (jsonRefObjectGetLong payload (lit "ms") 0).1 := OperationRecords.getLong_inLong payload (lit "ms")
  generalize (jsonRefObjectGetLong payload (lit "ms") 0).1 = ms at hms hchange
  refine changeAffair_kept hst (fun a a' ha hkept => ?_) hchange
  cases ha
  refine ⟨⟨{ hkept.ok.printable with nextReviewAtMs := OperationRecords.zero_inLong, updatedMs := ?_ }, hkept.ok.taskIds⟩, hkept.stamped⟩
  dsimp only
  split
  · exact hms
  · exact hnow

/-- The number of a CLI affair is an `int`, whatever the store holds. -/
theorem cliSeq_int (st : AffairStore) : (cliSeq st).natAbs ≤ 2 ^ 31 := by
  have hfold : ∀ seq : Int, seq.natAbs ≤ 2 ^ 31 → (st.foldl seqTurn seq).natAbs ≤ 2 ^ 31 := by
    induction st with
    | nil => exact fun _ h => h
    | cons a st ih =>
      intro seq h
      refine ih _ ?_
      unfold seqTurn
      split
      · split
        · rename_i n _
          have hlow := Int.le_bmod (show 0 < 2 ^ 32 by decide) (x := n + 1)
          have hhigh := Int.bmod_lt (show 0 < 2 ^ 32 by decide) (x := n + 1)
          split
          · omega
          · exact h
        · exact h
      · exact h
  rw [cliSeq_eq]
  exact hfold 1 (by decide)

theorem cliId_text (st : AffairStore) : TextField rtSmall (cliId st) := by
  have hseq := cliSeq_int st
  have hsix : ∀ n : Nat, n ≤ 2 ^ 31 → ∀ width ≤ 6, (decPadded width n).length ≤ 10 := by
    intro n hn width hwidth
    have hlen : (decPadded width n).length ≤ max width 10 := decPadded_length (by decide) (Nat.lt_of_le_of_lt hn (by decide))
    omega
  have hhead : (lit "aff_cli_").length = 8 ∧ (lit "-").length = 1 := ⟨lit_length _, lit_length _⟩
  refine ⟨NulFree.append (.of_all (by decide)) ?_, ?_⟩
  · unfold sixDigits
    split
    · exact decPadded_nulFree 6 _
    · exact NulFree.append (.of_all (by decide)) (decPadded_nulFree 5 _)
  · rw [cliId, List.length_append, sixDigits]
    split
    · have hlen := hsix (cliSeq st).toNat (by omega) 6 (by decide)
      simp only [rtSmall]
      omega
    · have hlen := hsix (cliSeq st).natAbs hseq 5 (by decide)
      rw [List.length_append]
      simp only [rtSmall]
      omega

theorem rtAffairCreateManual_kept {now : Int} (hnow : InLong now) {contextId manage : Bytes} {initial : Int} (hinitial : InLong initial)
    {st st' : AffairStore} (hst : KeptStore st) (h : rtAffairCreateManual now (cstr contextId) (cstr manage) initial st = some st') :
    KeptStore st' := by
  unfold rtAffairCreateManual at h
  split at h
  · cases h
  · rename_i hguard
    cases h
    simp only [not_or] at hguard
    obtain ⟨-, hmanage, hroom⟩ := hguard
    refine ⟨List.forall_mem_cons.mpr ⟨⟨⟨?_, List.nodup_nil⟩, List.forall_mem_nil _⟩, hst.1⟩, ?_⟩
    · exact
        { affairId := cliId_text st, contextId := clip_text (by decide) (cstr_nulFree _)
          manage := clip_text (by decide) (cstr_nulFree _), managed := clip_ne_nil (by decide) hmanage
          nextReviewAtMs := by
            dsimp only
            split
            · exact hinitial
            · exact OperationRecords.zero_inLong
          createdMs := hnow, updatedMs := hnow
          taskIds := by simp, taskIdRoom := by simp, notes := by simp, noteRoom := by simp
          counters := by simp, counterRoom := by simp, counterNames := by simp }
    · rw [List.length_cons]
      omega

/-- Whatever a call makes of a kept store is one. -/
theorem reduce_kept {now : Int} (hnow : InLong now) {c : Call} (hargs : LongArgs c) {st st' : AffairStore} (hst : KeptStore st)
    (h : reduce now st c = some st') : KeptStore st' := by
  cases c with
  | applyEvent type payloadJson =>
    simp only [reduce, rtAffairApplyEvent] at h
    split at h
    · cases h
    split at h
    · cases h
    split at h
    · obtain ⟨p, hp, hpatch⟩ := Option.bind_eq_some_iff.mp h
      exact applyAffairPatch_kept hnow (patchOf_ok hnow hp) hst hpatch
    split at h
    · exact applyNoteAdded_kept hnow hst h
    split at h
    · exact applyCounterBump_kept hnow hst h
    split at h
    · exact applyTaskLinked_kept hnow hst h
    · exact applyReviewed_kept hnow hst h
  | createManual contextId manage initial => exact rtAffairCreateManual_kept hnow hargs hst h
  | setStatus affairId status =>
    obtain ⟨canon, -, hchange⟩ := Option.bind_eq_some_iff.mp h
    refine changeAffair_kept hst (fun a a' ha hkept => ?_) hchange
    cases ha
    exact ⟨⟨{ hkept.ok.printable with updatedMs := hnow }, hkept.ok.taskIds⟩, hkept.stamped⟩
  | setNextReviewAt affairId next =>
    have hset : rtAffairSetNextReviewAt now (cstr affairId) next st = some st' := h
    unfold rtAffairSetNextReviewAt at hset
    split at hset
    · cases hset
    refine changeAffair_kept hst (fun a a' ha hkept => ?_) hset
    cases ha
    exact ⟨⟨{ hkept.ok.printable with nextReviewAtMs := hargs, updatedMs := hnow }, hkept.ok.taskIds⟩, hkept.stamped⟩

/-! ## Every run -/

theorem writeRows_row {α : Type} {cap : Nat} {row : Bool → α → Option (List Bytes)} {xs : List α} {first : Bool} {out r : Bytes}
    (h : writeRows cap row first out xs = some r) : ∀ x ∈ xs, ∃ first pieces, row first x = some pieces := by
  induction xs generalizing first out with
  | nil => exact List.forall_mem_nil _
  | cons x xs ih =>
    rw [writeRows] at h
    split at h
    · cases h
    · rename_i pieces hpieces
      obtain ⟨out1, -, hrest⟩ := Option.bind_eq_some_iff.mp h
      exact List.forall_mem_cons.mpr ⟨⟨first, pieces, hpieces⟩, ih hrest⟩

theorem arrayItems_text {β : Type} {cap : Nat} {text : β → Option Bytes} {xs : List β} {first : Bool} {ps : List Bytes}
    (h : arrayItems cap text first xs = some ps) : ∀ x ∈ xs, ∃ e, text x = some e := by
  induction xs generalizing first ps with
  | nil => exact List.forall_mem_nil _
  | cons x xs ih =>
    simp only [arrayItems, Option.bind_eq_bind, Option.bind_eq_some_iff] at h
    obtain ⟨e, he, -, -, rest, hrest, -⟩ := h
    exact List.forall_mem_cons.mpr ⟨⟨e, he⟩, ih hrest⟩

/-- A row that was printed leaves nothing too long for the projection. -/
theorem stored_of_row {a : AffairItem} (h : Kept a) {first : Bool} {pieces : List Bytes} (hrow : row first a = some pieces) : Stored a := by
  have hp := h.ok.printable
  simp only [row, Option.bind_eq_bind, Option.bind_eq_some_iff] at hrow
  obtain ⟨eid, hid, ectx, -, emanage, hmanage, estatus, -, -, -, taskIds, -, notes, hnotes, -⟩ := hrow
  refine ⟨h.ok, mirrored hp.affairId.nulFree hid, mirrored hp.manage.nulFree hmanage, fun n hn => ⟨h.stamped n hn, ?_⟩⟩
  obtain ⟨items, hitems, -⟩ := Option.map_eq_some_iff.mp hnotes
  obtain ⟨e, he⟩ := arrayItems_text hitems n hn
  simp only [noteText, Option.bind_eq_bind, Option.bind_eq_some_iff] at he
  obtain ⟨ets, -, etext, htext, -⟩ := he
  exact mirrored (hp.notes n hn).text.nulFree htext

/-- The store a file holds was written, and its affairs are kept. -/
def Holds (file : Option Bytes) : Prop :=
  (∀ a ∈ loadStore file, Stored a ∧ Kept a) ∧ ∀ text, file = some text → text.length < rtXl * 4

theorem Holds.none : Holds none := by
  refine ⟨fun a ha => ?_, fun _ h => ?_⟩
  · cases ha
  · cases h

theorem Holds.stored {file : Option Bytes} (h : Holds file) : ∀ a ∈ loadStore file, Stored a := fun a ha => (h.1 a ha).1

theorem Holds.loaded {file : Option Bytes} (h : Holds file) (io : FileIo) : KeptStore (loadStore (fsReadText io file)) := by
  refine ⟨fun a ha => ?_, (loadStore_printable _).2⟩
  cases hio : io.readable with
  | false =>
    rw [fsReadText, hio] at ha
    cases ha
  | true =>
    cases file with
    | none =>
      rw [fsReadText, hio] at ha
      cases ha
    | some text =>
      have hlen := h.2 text rfl
      rw [fsReadText_some hio (Nat.le_of_lt (Nat.lt_trans hlen (by decide)))] at ha
      exact (h.1 a ha).2

theorem call_holds {now : Int} (hnow : InLong now) {io : FileIo} {c : Call} (hargs : LongArgs c) {file : Option Bytes} (h : Holds file) :
    Holds (call now io c file).1 := by
  generalize hcall : call now io c file = r
  obtain ⟨file', accepted⟩ := r
  rcases call_cases hcall with ⟨-, rfl⟩ | ⟨-, st', text, hreduce, hwrite, rfl⟩
  · exact h
  · obtain ⟨hkept, hroom⟩ := reduce_kept hnow hargs (h.loaded io) hreduce
    obtain ⟨hback, hlen⟩ := loadStore_writeStore (fun a ha => (hkept a ha).ok.printable) hroom hwrite
    rw [writeStore, Source.StoreFile.writeStore] at hwrite
    obtain ⟨out, -, hrest⟩ := Option.bind_eq_some_iff.mp hwrite
    obtain ⟨out1, hrows, -⟩ := Option.bind_eq_some_iff.mp hrest
    refine ⟨fun a ha => ?_, fun t ht => ?_⟩
    · rw [hback] at ha
      obtain ⟨first, pieces, hrow⟩ := writeRows_row hrows a ha
      exact ⟨stored_of_row (hkept a ha) hrow, hkept a ha⟩
    · cases ht
      exact hlen

/-- The store file after a run that found none. -/
def fileAfter (is : List Input) : Option Bytes := is.foldl (fun file i => (call i.now i.io i.c file).1) none

theorem fileAfter_holds (is : List Input) : Holds (fileAfter is) := by
  induction is using List.reverseRecOn with
  | nil => exact .none
  | append_singleton is i ih =>
    rw [fileAfter, List.foldl_append]
    exact call_holds i.nowLong i.argsLong ih

theorem lists_of_holds {file : Option Bytes} (h : Holds file) (contextId : Bytes) :
    ∃ len, ∀ outLen, len < outLen → ∃ text, rtAffairsActiveStateJson contextId outLen file = some text ∧
      Lists text (activeIn contextId (loadStore file)) := by
  have hstored := h.stored
  refine ⟨(projectionText (activeIn contextId (loadStore file))).length, fun outLen hroom => ?_⟩
  exact ⟨_, projection_eq hstored hroom, projection_lists fun a ha => hstored a (List.mem_of_mem_filter ha)⟩

/-- In a buffer that is large enough the projection lists the active affairs of the context, with their recent notes. -/
def ShowsAll (contextId : Bytes) (file : Option Bytes) : Prop :=
  ∃ len, ∀ outLen, len < outLen → ∃ text, rtAffairsActiveStateJson contextId outLen file = some text ∧
    Complete text (activeIn contextId (loadStore file))

theorem showsAll_iff {file : Option Bytes} (h : Holds file) (contextId : Bytes) :
    ShowsAll contextId file ↔ ∀ a ∈ activeIn contextId (loadStore file), NotesFit a := by
  have hstored := h.stored
  have hactive : ∀ a ∈ activeIn contextId (loadStore file), Stored a := fun a ha => hstored a (List.mem_of_mem_filter ha)
  rw [← projection_notes_iff hactive]
  constructor
  · rintro ⟨len, hall⟩
    have hroom : (projectionText (activeIn contextId (loadStore file))).length <
        len + (projectionText (activeIn contextId (loadStore file))).length + 1 := by omega
    obtain ⟨text, htext, hcomplete⟩ := hall _ (show len < len + _ + 1 by omega)
    rw [projection_eq hstored hroom] at htext
    cases htext
    exact hcomplete.notes
  · intro hnotes
    exact ⟨_, fun outLen hroom => ⟨_, projection_eq hstored hroom, ⟨projection_lists hactive, hnotes⟩⟩⟩

/-- In every reachable store the projection is one object with every active affair of the context, its manage text and
its counters; it has the recent notes of all of them exactly when each three fit their buffer. -/
theorem projection_complete_iff (is : List Input) (contextId : Bytes) :
    (∃ len, ∀ outLen, len < outLen → ∃ text, rtAffairsActiveStateJson contextId outLen (fileAfter is) = some text ∧
      Lists text (activeIn contextId (loadStore (fileAfter is)))) ∧
    (ShowsAll contextId (fileAfter is) ↔ ∀ a ∈ activeIn contextId (loadStore (fileAfter is)), NotesFit a) :=
  ⟨lists_of_holds (fileAfter_holds is) contextId, showsAll_iff (fileAfter_holds is) contextId⟩

/-- A note of control characters: each is six octets in the projection. -/
def bellNote : Bytes := quoted (escaped (List.replicate 170 7))

theorem one_inLong : InLong 1 := ⟨by decide, by decide⟩

def bellCreated : Input :=
  { now := 1, io := {}, nowLong := one_inLong, argsLong := trivial
    c := .applyEvent (lit "affair_patch")
      (objText [(lit "action", quoted (lit "create")), (lit "affair_id", quoted (lit "aff_1")),
        (lit "context_id", quoted (lit "chat:x")), (lit "manage", quoted (lit "the doorbell")), (lit "note_text", bellNote)]) }

def bellAdded : Input :=
  { now := 1, io := {}, nowLong := one_inLong, argsLong := trivial
    c := .applyEvent (lit "affair_note_added") (objText [(lit "affair_id", quoted (lit "aff_1")), (lit "text", bellNote)]) }

/-- A call that can write its store leaves it. -/
theorem call_loaded {i : Input} {file : Option Bytes} {st' : AffairStore} (h : Holds file) (hio : i.io = {})
    (hreduce : reduce i.now (loadStore file) i.c = some st') (hwrite : (writeStore st').isSome = true) :
    loadStore (call i.now i.io i.c file).1 = st' := by
  have hread : fsReadText i.io file = file := by
    cases file with
    | none => simp [fsReadText]
    | some text => exact fsReadText_some (by rw [hio]) (Nat.le_of_lt (Nat.lt_trans (h.2 text rfl) (by decide)))
  have hst : KeptStore (loadStore file) := by
    have hloaded := h.loaded i.io
    rwa [hread] at hloaded
  obtain ⟨text, htext⟩ := Option.isSome_iff_exists.mp hwrite
  obtain ⟨hkept, hroom⟩ := reduce_kept i.nowLong i.argsLong hst hreduce
  have hcall : call i.now i.io i.c file = (some text, true) := by
    rw [call, hread, hreduce, Option.bind_some, htext, hio]
    rfl
  rw [hcall]
  exact (loadStore_writeStore (fun a ha => (hkept a ha).ok.printable) hroom htext).1

def bellItem (notes : List AffairNote) : AffairItem :=
  { affairId := lit "aff_1", contextId := lit "chat:x", status := .active, manage := lit "the doorbell", nextReviewAtMs := 0
    taskIds := [], notes := notes, counters := [], createdMs := 1, updatedMs := 1 }

def bell : AffairNote := { ts := lit "1970-01-01T00:00:00Z", text := List.replicate 170 7 }

theorem fileAfter_append (is : List Input) (i : Input) :
    fileAfter (is ++ [i]) = (call i.now i.io i.c (fileAfter is)).1 := by
  rw [fileAfter, List.foldl_append]
  rfl

theorem bell_created : reduce bellCreated.now [] bellCreated.c = some [bellItem [bell]] := by
  have hwritten : WrittenMembers [(lit "action", quoted (lit "create")), (lit "affair_id", quoted (lit "aff_1")),
      (lit "context_id", quoted (lit "chat:x")), (lit "manage", quoted (lit "the doorbell")), (lit "note_text", bellNote)] :=
    .key (by decide) (plain_clean (by decide)) <| .key (by decide) (plain_clean (by decide)) <|
      .key (by decide) (plain_clean (by decide)) <| .key (by decide) (plain_clean (by decide)) <|
      .key (by decide) (.text _) .nil
  have htop := jsonRefTopObject_complete hwritten.objText (CleanValue.objText hwritten).nulFree
  rw [bellCreated, reduce, rtAffairApplyEvent, htop]
  simp only [patchOf, jsonRefObjectGetString, stringField, jsonRefObjectGetLong, hwritten.get]
  decide +kernel

example : fitting 1 true [] = [] := by decide +kernel

theorem bell_added : reduce bellAdded.now [bellItem [bell]] bellAdded.c = some [bellItem [bell, bell]] := by
  have hwritten : WrittenMembers [(lit "affair_id", quoted (lit "aff_1")), (lit "text", bellNote)] :=
    .key (by decide) (plain_clean (by decide)) <| .key (by decide) (.text _) .nil
  have htop := jsonRefTopObject_complete hwritten.objText (CleanValue.objText hwritten).nulFree
  rw [bellAdded, reduce, rtAffairApplyEvent, htop]
  simp only [applyNoteAdded, jsonRefObjectGetString, jsonRefObjectGetLong, hwritten.get]
  decide +kernel

example : projectionText [] = lit "\x7b\"active\":[]\x7d" := by decide +kernel

theorem bell_stored : loadStore (fileAfter [bellCreated, bellAdded]) = [bellItem [bell, bell]] := by
  have hwrites : (writeStore [bellItem [bell]]).isSome = true ∧ (writeStore [bellItem [bell, bell]]).isSome = true := by decide +kernel
  have hone := call_loaded (fileAfter_holds []) rfl bell_created hwrites.1
  rw [← fileAfter_append] at hone
  have hsecond := bell_added
  rw [← hone] at hsecond
  have htwo := call_loaded (fileAfter_holds _) rfl hsecond hwrites.2
  rw [← fileAfter_append] at htwo
  exact htwo

example : fileAfter [] = none := by decide +kernel

/-- The second of two notes is stored and does not reach the projection. -/
theorem second_note_lost : (∃ a ∈ activeIn (lit "chat:x") (loadStore (fileAfter [bellCreated, bellAdded])), a.notes.length = 2 ∧
      (fitting 1 true (recentNotes a)).length = 1) ∧ ¬ ShowsAll (lit "chat:x") (fileAfter [bellCreated, bellAdded]) := by
  have hactive : bellItem [bell, bell] ∈ activeIn (lit "chat:x") (loadStore (fileAfter [bellCreated, bellAdded])) := by
    rw [bell_stored]
    exact List.mem_filter.mpr ⟨List.mem_singleton_self _, rfl⟩
  have hlost : (fitting 1 true (recentNotes (bellItem [bell, bell]))).length = 1 := by decide +kernel
  refine ⟨⟨_, hactive, rfl, hlost⟩, fun hall => ?_⟩
  have hfits := (showsAll_iff (fileAfter_holds [bellCreated, bellAdded]) _).mp hall _ hactive
  rw [← fitting_recent_iff] at hfits
  rw [hfits] at hlost
  cases hlost

end Floofclaw.Guarantees.AffairProjections
