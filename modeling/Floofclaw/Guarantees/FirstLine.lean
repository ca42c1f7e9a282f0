import Floofclaw.Source.Inbound
import Floofclaw.Source.JsonSplice

/-!
# The first line of a log

A value of plain octets needs no escape, and a text of values on one line is on
one line. Run and event ids are plain; the canonical result of an operation is
on the line with every text of it escaped, where the escapes fit their buffers.
-/

set_option autoImplicit false

namespace Floofclaw.Guarantees.FirstEvent
open Floofclaw.Lib Floofclaw.Source.Json Floofclaw.Source.EventLog Floofclaw.Source.Inbound

/-! ## Plain texts -/

/-- A text of plain octets only. -/
abbrev PlainText (s : Bytes) : Prop := ∀ c ∈ s, isPlain c = true

theorem PlainText.nulFree {s : Bytes} (h : PlainText s) : NulFree s := fun c hc => isPlain_ne_zero (h c hc)

theorem PlainText.clean {s : Bytes} (h : PlainText s) : CleanValue (quoted s) := by
  have := CleanValue.text s
  rwa [escaped_plain h] at this

/-! ## One line -/

/-- No line break: the text stays on one line of a log. -/
def OneLine (s : Bytes) : Prop := ch '\n' ∉ s

instance (s : Bytes) : Decidable (OneLine s) := inferInstanceAs (Decidable (ch '\n' ∉ s))

theorem OneLine.append {s t : Bytes} (hs : OneLine s) (ht : OneLine t) : OneLine (s ++ t) := by
  intro hmem
  rcases List.mem_append.mp hmem with h | h
  · exact hs h
  · exact ht h

theorem OneLine.of_strBody {s : Bytes} (h : StrBody s) : OneLine s := fun hmem => h.no_control _ hmem (by decide)

theorem OneLine.of_plain {s : Bytes} (h : PlainText s) : OneLine s := .of_strBody (.of_plain h)

theorem OneLine.quoted {s : Bytes} (h : OneLine s) : OneLine (quoted s) := by
  have hq : OneLine [ch '"'] := by decide
  exact hq.append (h.append hq)

theorem OneLine.decInt (z : Int) : OneLine (decInt z) := by
  intro hmem
  have hsolid := numText_solid (decInt_numText z) _ hmem
  exact absurd hsolid (by decide)

/-- A key as the formats write it, and a value on one line. -/
def OneLineMembers (ms : List (Bytes × Bytes)) : Prop := ∀ m ∈ ms, plainKey m.1 = true ∧ OneLine m.2

theorem plainKey_plain {k : Bytes} (h : plainKey k = true) : PlainText k := by
  rw [plainKey, Bool.and_eq_true] at h
  simpa using h.1

theorem OneLineMembers.text {ms : List (Bytes × Bytes)} (h : OneLineMembers ms) : OneLine (membersText ms) := by
  have hcolon : OneLine [ch ':'] := by decide
  have hcomma : OneLine [ch ','] := by decide
  induction ms with
  | nil => simp [membersText, OneLine]
  | cons m ms ih =>
    obtain ⟨k, v⟩ := m
    obtain ⟨hk, hv⟩ := h (k, v) (by simp)
    have hkey : OneLine (Lib.quoted k) := (OneLine.of_plain (plainKey_plain hk)).quoted
    have hrest := ih fun m hm => h m (List.mem_cons_of_mem _ hm)
    cases ms with
    | nil => exact hkey.append (hcolon.append hv)
    | cons m' ms => exact hkey.append (hcolon.append (hv.append (hcomma.append hrest)))

theorem OneLineMembers.objText {ms : List (Bytes × Bytes)} (h : OneLineMembers ms) : OneLine (objText ms) := by
  have hopen : OneLine [ch '{'] := by decide
  have hclose : OneLine [ch '}'] := by decide
  exact hopen.append (h.text.append hclose)

/-! ## The condition -/

/-- The escape of a text fits its buffer. -/
def escapeFits (cap : Nat) (s : Bytes) : Prop := (escaped s).length < cap

instance (cap : Nat) (s : Bytes) : Decidable (escapeFits cap s) := inferInstanceAs (Decidable (_ < _))

/-- The correlation of a record, escaped. -/
def recordMembers (op : RtOperationSnapshot) : List (Bytes × Bytes) :=
  corrMembers op (escaped op.taskId) (escaped op.contextId) (escaped op.channel) (escaped op.adapterId)
    (escaped op.originEventId)

/-- The canonical result with every text escaped. -/
def completionMembers (heap runId : Bytes) (op : RtOperationSnapshot) (env : ParsedEnvelope) : List (Bytes × Bytes) :=
  [(lit "handle", quoted (escaped op.handle)), (lit "worker_handle", quoted (escaped op.workerHandle)),
    (lit "action", quoted (escaped op.action)), (lit "request_id", quoted (escaped op.requestId)),
    (lit "trigger_event_id", quoted (escaped op.triggerEventId)), (lit "work_rev", decInt op.workRev),
    (lit "source_event_id", quoted (escaped (eventIdText runId 1)))] ++ recordMembers op ++
  [(lit "status", quoted (escaped (resultStatus env))), (lit "text", quoted (escaped (resultText heap op env)))]

/-- Everything the canonical result escapes fits. -/
structure CompletionFits (heap runId : Bytes) (op : RtOperationSnapshot) (env : ParsedEnvelope) : Prop where
  record : ∀ s ∈ [op.handle, op.workerHandle, op.action, op.requestId, op.triggerEventId, op.contextId, op.channel,
    op.adapterId, op.taskId, op.originEventId], escapeFits rtMed s
  text : escapeFits rtEventPayloadMax (resultText heap op env)
  corr : (membersText (recordMembers op)).length < rtLarge
  whole : (objText (completionMembers heap runId op env)).length < rtEventPayloadMax

theorem mirror_fits {cap : Nat} {s : Bytes} (hs : NulFree s) :
    mirror cap s = if escapeFits cap s then some (escaped s) else none := mirror_eq hs

/-! ## The line -/

theorem isDigit_plain {c : Byte} (h : isDigit c = true) : isPlain c = true := by
  have hall : ∀ n : Fin 256, isDigit (UInt8.ofNat n) = true → isPlain (UInt8.ofNat n) = true := by decide +kernel
  have := hall ⟨c.toNat, c.toNat_lt⟩
  simp only [UInt8.ofNat_toNat] at this
  exact this h

example : isPlain (ch '7') = true := by decide +kernel

/-- A plain text that is written out. -/
theorem plain_clean {cs : List Char} (h : (cs.map ch).all isPlain = true) : CleanValue (quoted (lit (String.ofList cs))) :=
  PlainText.clean fun c hc => List.all_eq_true.mp (lit_all h) c hc

theorem PlainText.append {s t : Bytes} (hs : PlainText s) (ht : PlainText t) : PlainText (s ++ t) := by
  intro c hc
  rcases List.mem_append.mp hc with h | h
  · exact hs c h
  · exact ht c h

theorem PlainText.of_all {s : Bytes} (h : s.all isPlain = true) : PlainText s := fun c hc => List.all_eq_true.mp h c hc

theorem runIdOf_plain (n : RunNumber) : PlainText (runIdOf n) :=
  (PlainText.of_all (lit_all (by decide))).append fun c hc => isDigit_plain (decPadded_digits _ _ c hc)

theorem eventId_plain (n : RunNumber) : PlainText (eventIdText (runIdOf n) 1) :=
  (((PlainText.of_all (lit_all (by decide))).append (runIdOf_plain n)).append (PlainText.of_all (by decide))).append
    fun c hc => isDigit_plain (decPadded_digits _ _ c hc)

theorem eventId_fits (n : RunNumber) : (eventIdText (runIdOf n) 1).length < rtSmall := by
  have hn : n.val < 10 ^ 10 := Nat.lt_trans n.isLt (by decide)
  have hrun : (decPadded 3 n).length ≤ max 3 10 := decPadded_length (by decide) hn
  have hseq : (decPadded 6 1).length = 6 := by decide
  have h4 : (lit "evt_").length = 4 := lit_length _
  have h1 : (lit "_").length = 1 := by decide
  have hr : (lit "run_").length = 4 := lit_length _
  simp only [eventIdText, runIdOf, List.length_append, hseq, h4, h1, hr, rtSmall]
  omega

end Floofclaw.Guarantees.FirstEvent
