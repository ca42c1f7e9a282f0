import Floofclaw.Source.RunState
import Floofclaw.Guarantees.FirstLine

/-!
# Cold replay and the snapshot

The projection at append time and the cold reducer are two readers of one
sequence of events. They agree record by record as long as the line can be read
back, a terminal names its action and an empty delivery does not follow a text.
Where they agree, the replay succeeds exactly when the reduced run state fits
its intermediate buffer.
-/

set_option autoImplicit false

namespace Floofclaw.Guarantees.Snapshot
open Floofclaw.Lib Floofclaw.Source.Json Floofclaw.Source.EventLog Floofclaw.Source.Inbound
open Floofclaw.Source.RunState Floofclaw.Guarantees.FirstEvent
open Floofclaw.Source.LogFile (Host Reducers LogContext nextEventId callLine writeLine appendErrorEvent beforeWorkState
  appendEventUnchecked written)
open Floofclaw.Source.LogFile renaming rtAppendEvent → appendEvent, reduceSubsystem → applySubsystem,
  reduceWorkState → applyWorkState, subsystemReducer → ownerOf

/-! ## Runs of appends -/

/-- One call of `rt_append_event` or `rt_append_event_sync`. -/
structure AppendCall where
  type : Bytes
  source : Bytes
  body : Bytes
  deriving DecidableEq

/-- A host on which every append lands. -/
def landing (clock : Nat → Stamp) : Host := ⟨fun _ => .done, fun k => (clock k).text⟩

def freshRun {τ : Type} (n : RunNumber) (stores : τ) : LogContext (RunFields × τ) :=
  { runId := runIdOf n, nextEvent := 1, log := [], stores := (.empty, stores), replayMode := false,
    errorActive := false }

section Runs
variable {τ : Type} (R : Reducers τ) (clock : Nat → Stamp)

def appendCall (ctx : LogContext (RunFields × τ)) (call : AppendCall) : LogContext (RunFields × τ) :=
  (appendEvent (projecting R) (landing clock) ctx call.type call.source call.body).1

def appendCalls (ctx : LogContext (RunFields × τ)) (calls : List AppendCall) : LogContext (RunFields × τ) :=
  calls.foldl (appendCall R clock) ctx

/-! ## The condition -/

/-- A C string without a line break. -/
structure Inline (s : Bytes) : Prop where
  nulFree : NulFree s
  oneLine : OneLine s

/-- The types the projection reads. -/
def projected (type : Bytes) : Bool := type == lit "user_message" || terminalTypes.contains type

/-- What an append of a projected type must satisfy for the cold reader to see what the live one sees. -/
structure Readable (ctx : LogContext (RunFields × τ)) (call : AppendCall) : Prop where
  source : PlainText call.source
  body : CleanObject call.body
  fits : ∀ line, callLine (landing clock) ctx call.type call.source call.body = some line → line.length ≤ rtXl
  named : terminalTypes.contains call.type = true →
    (jsonRefObjectGetString call.body (lit "action") rtSmall).isSome = true
  told : ∀ action, jsonRefObjectGetString call.body (lit "action") rtSmall = some action →
    deliveredText call.body (call.type = lit "action_succeeded") action = some [] → ctx.stores.1.latestMessage = []

structure CallOk (ctx : LogContext (RunFields × τ)) (call : AppendCall) : Prop where
  type : safeEventType call.type = true
  source : Inline call.source
  body : Inline call.body
  readable : projected call.type = true → Readable clock ctx call

/-- Every append of the run meets the condition in the context it is made in. -/
def CallsOk (ctx : LogContext (RunFields × τ)) : List AppendCall → Prop
  | [] => True
  | call :: calls => CallOk clock ctx call ∧ CallsOk (appendCall R clock ctx call) calls

end Runs

/-- The escaped fields fit the intermediate buffer of the replay beside the 80 octets of their frame. -/
def FieldsFit (fields : RunFields) : Prop :=
  (escapeCut rtLarge fields.userText).length + (escapeCut rtSmall fields.latestAction).length +
    (escapeCut rtLarge fields.latestResultText).length + (escapeCut rtLarge fields.latestMessage).length + 80 <
    rtLarge * 2

/-! ## One line -/

theorem safeEventType_plain {type : Bytes} (h : safeEventType type = true) : PlainText type := by
  have hall : ∀ n : Fin 256, ((97 ≤ UInt8.ofNat n && UInt8.ofNat n ≤ 122) || (65 ≤ UInt8.ofNat n && UInt8.ofNat n ≤ 90) ||
      (48 ≤ UInt8.ofNat n && UInt8.ofNat n ≤ 57) || UInt8.ofNat n = ch '_') = true →
      isPlain (UInt8.ofNat n) = true := by decide +kernel
  intro c hc
  rw [safeEventType, Bool.and_eq_true, List.all_eq_true] at h
  have hsafe := h.2 c hc
  have := hall ⟨c.toNat, c.toNat_lt⟩
  simp only [UInt8.ofNat_toNat] at this
  exact this hsafe

example : projected (lit "user_message") = true := by decide +kernel

theorem Inline.of_plain {s : Bytes} (h : PlainText s) : Inline s := ⟨h.nulFree, .of_plain h⟩

theorem Inline.append {s t : Bytes} (hs : Inline s) (ht : Inline t) : Inline (s ++ t) :=
  ⟨hs.nulFree.append ht.nulFree, hs.oneLine.append ht.oneLine⟩

theorem Inline.take {s : Bytes} (h : Inline s) (n : Nat) : Inline (s.take n) :=
  ⟨h.nulFree.take n, fun hc => h.oneLine (List.mem_of_mem_take hc)⟩

theorem Inline.of_all {s : Bytes} (h : s.all (fun c => c ≠ 0 && c ≠ ch '\n') = true) : Inline s := by
  simp only [List.all_eq_true, Bool.and_eq_true, decide_eq_true_eq] at h
  exact ⟨fun c hc => (h c hc).1, fun hc => (h _ hc).2 rfl⟩

theorem eventIdText_plain (n : RunNumber) (k : Nat) : PlainText (eventIdText (runIdOf n) k) :=
  (((PlainText.of_all (lit_all (by decide))).append (runIdOf_plain n)).append (PlainText.of_all (by decide))).append
    fun c hc => isDigit_plain (decPadded_digits _ _ c hc)

section Line
variable {n : RunNumber} {k : Nat} {ts : Stamp} {type source body : Bytes}

/-- The line of event `k` of a run, short of its newline. -/
def lineOf (n : RunNumber) (k : Nat) (ts : Stamp) (type source body : Bytes) : Bytes :=
  eventLine (eventIdText (runIdOf n) k) ts.text type source (runIdOf n) body

/-- The members in front of the source. -/
def headOf (n : RunNumber) (k : Nat) (ts : Stamp) (type : Bytes) : List (Bytes × Bytes) :=
  [(lit "event_id", quoted (eventIdText (runIdOf n) k)), (lit "ts", quoted ts.text), (lit "type", quoted type)]

theorem headOf_written (ht : PlainText type) : WrittenMembers (headOf n k ts type) :=
  .key (by decide) (eventIdText_plain n k).clean (.key (by decide) (PlainText.of_all ts.plain).clean
    (.key (by decide) ht.clean .nil))

theorem lineOf_inline (ht : PlainText type) (hs : Inline source) (hb : Inline body) :
    Inline (lineOf n k ts type source body) := by
  have hplain : ∀ {s : Bytes}, PlainText s → NulFree s ∧ OneLine (quoted s) := fun h => ⟨h.nulFree, (OneLine.of_plain h).quoted⟩
  have hkey : ∀ {s : Bytes}, plainKey s = true → NulFree s := fun h => plainKey_nulFree h
  constructor
  · apply objText_nulFree
    simp only [List.forall_mem_cons]
    exact ⟨⟨hkey (plainKey_lit (by decide)), quoted_nulFree (eventIdText_plain n k).nulFree⟩,
      ⟨hkey (by decide), quoted_nulFree (PlainText.of_all ts.plain).nulFree⟩,
      ⟨hkey (plainKey_lit (by decide)), quoted_nulFree ht.nulFree⟩, ⟨hkey (plainKey_lit (by decide)), quoted_nulFree hs.nulFree⟩,
      ⟨hkey (plainKey_lit (by decide)), quoted_nulFree (runIdOf_plain n).nulFree⟩, ⟨hkey (plainKey_lit (by decide)), hb.nulFree⟩, by simp⟩
  · have hone : OneLineMembers [(lit "event_id", quoted (eventIdText (runIdOf n) k)), (lit "ts", quoted ts.text),
        (lit "type", quoted type), (lit "source", quoted source), (lit "run_id", quoted (runIdOf n)),
        (lit "payload", body)] := by
      simp only [OneLineMembers, List.forall_mem_cons]
      exact ⟨⟨plainKey_lit (by decide), (hplain (eventIdText_plain n k)).2⟩,
        ⟨by decide, (hplain (PlainText.of_all ts.plain)).2⟩, ⟨plainKey_lit (by decide), (hplain ht).2⟩,
        ⟨plainKey_lit (by decide), hs.oneLine.quoted⟩, ⟨plainKey_lit (by decide), (hplain (runIdOf_plain n)).2⟩,
        ⟨plainKey_lit (by decide), hb.oneLine⟩, by simp⟩
    exact hone.objText

/-- Whatever follows the type, an accepted line is read under the type it was written with. -/
theorem lineOf_type {event : JsonRef} {t : Bytes} (ht : PlainText type) (hs : Inline source) (hb : Inline body)
    (htop : jsonRefTopObject (lineOf n k ts type source body) = some event)
    (hget : jsonRefObjectGetString event (lit "type") rtSmall = some t) : t = type := by
  obtain ⟨rfl, ms, hms⟩ := jsonRefTopObject_whole (lineOf_inline ht hs hb).nulFree htop
  have hself : lineOf n k ts type source body ++ [] = lineOf n k ts type source body ++ [] := rfl
  obtain ⟨inner, hreads, heq⟩ := objText_members hms hself
  have hform : inner ++ [ch '}'] = membersText (headOf n k ts type ++ (lit "source", quoted source) ::
      [(lit "run_id", quoted (runIdOf n)), (lit "payload", body)]) ++ [ch '}'] := heq
  obtain ⟨ms', body', rfl, -, -⟩ := members_peel (headOf_written ht).wellformed hreads hform
  rw [jsonRefObjectGetString, jsonRefObjectGet_eq hms] at hget
  have hlookup : memberLookup (lit "type") (headOf n k ts type ++ ms') = some (quoted type) := by
    have hskip : memberLookup (lit "type") ((headOf n k ts type).take 2 ++ (lit "type", quoted type) :: ms') = _ :=
      memberLookup_skip [lit "event_id", lit "ts"] rfl (by decide) _
    rw [memberLookup_here _ (by decide)] at hskip
    exact hskip
  rw [hlookup, Option.bind_some] at hget
  -- the copy into a buffer that holds the whole type is the type itself
  have hlong : jsonRefStringCopy (type.length + rtSmall) (quoted type) = some t := jsonRefStringCopy_mono (by omega) hget
  have hself : jsonRefStringCopy (type.length + rtSmall) (quoted (escaped type)) = some type :=
    jsonRefStringCopy_escaped ht.nulFree (by simp [rtSmall])
  rw [escaped_plain ht, hlong] at hself
  exact Option.some.inj hself

theorem jsonRefFirstObject_whole {obj : JsonRef} (h : CleanObject obj) : jsonRefFirstObject obj = some obj := by
  obtain ⟨ms, hms⟩ := h.text
  have hspan : valueSpan obj = some (obj, []) := by
    have := valueSpan_complete hms.isValue (NoNumHead.nil)
    rwa [List.append_nil] at this
  obtain ⟨u, hu⟩ := hms.brace
  rw [jsonRefFirstObject, cstr_eq_self h.nulFree, hu, firstObjectLoop, if_pos rfl, ← hu, hspan]

/-- A line with a plain source and an object for its payload is read back whole. -/
theorem lineOf_reads (ht : PlainText type) (htl : type.length < rtSmall) (hs : PlainText source) (hb : CleanObject body)
    (hfit : (lineOf n k ts type source body).length < rtXl) :
    lineEvent (lineOf n k ts type source body) true = some (type, body) := by
  obtain ⟨bms, hbms⟩ := hb.text
  have hms : WrittenMembers (headOf n k ts type ++ [(lit "source", quoted source),
      (lit "run_id", quoted (runIdOf n)), (lit "payload", body)]) :=
    (headOf_written ht).append (.key (by decide) hs.clean
      (.key (by decide) (runIdOf_plain n).clean (.key (by decide) ⟨hbms.isValue, hb.nulFree⟩ .nil)))
  have htop : jsonRefTopObject (lineOf n k ts type source body) = some (lineOf n k ts type source body) :=
    jsonRefTopObject_complete hms.objText (CleanValue.objText hms).nulFree
  have hget : ∀ key, jsonRefObjectGet (lineOf n k ts type source body) key = assoc key _ := hms.get
  have htype : assoc (lit "type") (headOf n k ts type ++ [(lit "source", quoted source),
      (lit "run_id", quoted (runIdOf n)), (lit "payload", body)]) = some (quoted type) := rfl
  have hpayload : assoc (lit "payload") (headOf n k ts type ++ [(lit "source", quoted source),
      (lit "run_id", quoted (runIdOf n)), (lit "payload", body)]) = some body := rfl
  have hcopy : jsonRefStringCopy rtSmall (quoted type) = some type := by
    have := jsonRefStringCopy_escaped ht.nulFree htl
    rwa [escaped_plain ht] at this
  have hobj : (some body).filter (fun v => jsonRefInferType v = .object) = some body := by
    simp [ObjText.inferType hbms]
  rw [lineEvent, if_neg (by simp; omega)]
  simp only [htop, jsonRefObjectGetString, jsonRefObjectGetObject, hget, htype, hpayload, Option.bind_some, hcopy, hobj]

/-- A line of a type the projection does not read changes nothing, read or skipped. -/
theorem reduceLine_quiet (fields : RunFields) (ht : PlainText type) (hq : projected type = false) (hs : Inline source)
    (hb : Inline body) : reduceLine fields (lineOf n k ts type source body) true = fields := by
  rw [reduceLine]
  split
  · rfl
  · rename_i t payload hline
    have htype : t = type := by
      unfold lineEvent at hline
      split at hline
      · simp at hline
      · split at hline
        · simp at hline
        · rename_i event htop
          split at hline
          · rename_i t' p' hget hp
            simp only [Option.some.injEq, Prod.mk.injEq] at hline
            exact lineOf_type ht hs hb htop (hline.1 ▸ hget)
          · simp at hline
    subst htype
    rw [projected, Bool.or_eq_false_iff] at hq
    rw [if_neg (by simpa using hq.1), if_neg (by simpa using hq.2)]

end Line

/-- A record of a projected type, read by the cold reducer, does to its fields what the projection does. -/
theorem reduceLine_read {type body line : Bytes} {fields : RunFields} (hp : projected type = true) (hb : CleanObject body)
    (hread : lineEvent line true = some (type, body))
    (hnamed : terminalTypes.contains type = true → (jsonRefObjectGetString body (lit "action") rtSmall).isSome = true)
    (htold : ∀ action, jsonRefObjectGetString body (lit "action") rtSmall = some action →
      deliveredText body (type = lit "action_succeeded") action = some [] → fields.latestMessage = []) :
    reduceLine fields line true = rtApplyEventToContext type body fields := by
  rw [reduceLine, hread, rtApplyEventToContext, jsonRefFirstObject_whole hb]
  dsimp only
  by_cases huser : type = lit "user_message"
  · rw [if_pos huser, if_pos huser]
  · have hterminal : terminalTypes.contains type = true := by
      rw [projected, Bool.or_eq_true] at hp
      exact hp.resolve_left (by simpa using huser)
    obtain ⟨action, haction⟩ := Option.isSome_iff_exists.mp (hnamed hterminal)
    rw [if_neg huser, if_neg huser, if_pos hterminal, if_pos hterminal]
    simp only [noteActionTerminal, haction]
    have hmessage : (if (deliveredText body (type = lit "action_succeeded") action).getD RunFields.empty.latestMessage = []
        then fields.latestMessage
        else (deliveredText body (type = lit "action_succeeded") action).getD RunFields.empty.latestMessage) =
        (deliveredText body (type = lit "action_succeeded") action).getD fields.latestMessage := by
      cases htext : deliveredText body (type = lit "action_succeeded") action with
      | none => simp [RunFields.empty]
      | some text =>
        cases text with
        | nil => simp [htold action haction htext]
        | cons c t => simp
    rw [hmessage]

/-! ## The whole text -/

/-- Records, each ended by a newline. -/
def linesText (lines : List Bytes) : Bytes := lines.flatMap (· ++ [ch '\n'])

theorem nextLine_cons {line : Bytes} (h : OneLine line) (rest : Bytes) :
    nextLine (line ++ ch '\n' :: rest) = (line, true, rest) := by
  have htake : (line ++ ch '\n' :: rest).takeWhile (· ≠ ch '\n') = line := by
    have hne : ∀ c ∈ line, decide (c ≠ ch '\n') = true := by
      intro c hc
      rw [decide_eq_true_eq]
      rintro rfl
      exact h hc
    rw [List.takeWhile_append_of_pos hne]
    simp
  rw [nextLine, htake]
  simp

theorem reduceLoop_lines {lines : List Bytes} (h : ∀ line ∈ lines, OneLine line) (n : Nat)
    (hn : (linesText lines).length ≤ n) (fields : RunFields) :
    reduceLoop n (linesText lines) fields = lines.foldl (fun f line => reduceLine f line true) fields := by
  induction lines generalizing n fields with
  | nil => cases n <;> rfl
  | cons line lines ih =>
    have htext : linesText (line :: lines) = line ++ ch '\n' :: linesText lines := by simp [linesText]
    rw [htext] at hn ⊢
    rw [List.length_append, List.length_cons] at hn
    obtain ⟨m, rfl⟩ : ∃ m, n = m + 1 := ⟨n - 1, by omega⟩
    obtain ⟨c, u, hcu⟩ : ∃ c u, line ++ ch '\n' :: linesText lines = c :: u := by
      cases line <;> exact ⟨_, _, rfl⟩
    rw [hcu, reduceLoop, ← hcu, nextLine_cons (h line (by simp))]
    exact ih (fun l hl => h l (by simp [hl])) m (by omega) _

/-- The fields the cold reducer computes from a text of whole records. -/
theorem reduceRunStateText_lines {lines : List Bytes} (h : ∀ line ∈ lines, OneLine line) (cap : Nat) :
    reduceRunStateText (linesText lines) cap =
      if (runText (lines.foldl (fun f line => reduceLine f line true) .empty)).length ≥ cap then none
      else some (runText (lines.foldl (fun f line => reduceLine f line true) .empty)) := by
  rw [reduceRunStateText, reduceLoop_lines h _ (Nat.le_refl _)]

/-! ## Appends -/

section Appends
variable {τ : Type} {R : Reducers τ} {clock : Nat → Stamp} {n : RunNumber}

/-- The log is the records whose cold reduction is the live projection. -/
structure Agrees (n : RunNumber) (ctx : LogContext (RunFields × τ)) : Prop where
  runId : ctx.runId = runIdOf n
  live : ctx.replayMode = false
  records : ∃ lines, ctx.log = linesText lines ∧ (∀ line ∈ lines, OneLine line) ∧
    lines.foldl (fun f line => reduceLine f line true) .empty = ctx.stores.1

/-- What a call adds to the log, and what the cold reducer makes of it. -/
theorem Agrees.extend {ctx ctx' : LogContext (RunFields × τ)} {line : Bytes} (h : Agrees n ctx)
    (hrun : ctx'.runId = ctx.runId) (hlive : ctx'.replayMode = ctx.replayMode)
    (hlog : ctx'.log = ctx.log ++ (line ++ [ch '\n'])) (hone : OneLine line)
    (hfields : reduceLine ctx.stores.1 line true = ctx'.stores.1) : Agrees n ctx' := by
  obtain ⟨lines, htext, hlines, hfold⟩ := h.records
  refine ⟨hrun.trans h.runId, hlive.trans h.live, lines ++ [line], ?_, ?_, ?_⟩
  · rw [hlog, htext]
    simp [linesText]
  · intro l hl
    rcases List.mem_append.mp hl with hl | hl
    · exact hlines l hl
    · exact List.mem_singleton.mp hl ▸ hone
  · rw [List.foldl_append, hfold]
    exact hfields

theorem Agrees.stores {ctx : LogContext (RunFields × τ)} (h : Agrees n ctx) {stores : RunFields × τ}
    (hfields : stores.1 = ctx.stores.1) : Agrees n { ctx with stores := stores } :=
  ⟨h.runId, h.live, by obtain ⟨lines, htext, hlines, hfold⟩ := h.records; exact ⟨lines, htext, hlines, hfold.trans hfields.symm⟩⟩

/-- A call that gets an event id writes its line, with the newline, and takes the number. -/
theorem callLine_eq {ctx : LogContext (RunFields × τ)} (h : Agrees n ctx) (clock : Nat → Stamp) (type source body : Bytes) :
    callLine (landing clock) ctx type source body = none ∨
      callLine (landing clock) ctx type source body =
        some (lineOf n ctx.nextEvent (clock ctx.nextEvent) type source body ++ lit "\n") := by
  unfold callLine nextEventId
  split
  · exact .inl rfl
  · dsimp only
    split
    · exact .inl rfl
    · right
      rw [Option.map_some, h.runId]
      rfl

/-- A nested error event is a record the projection does not read. -/
theorem Agrees.error {ctx : LogContext (RunFields × τ)} (h : Agrees n ctx) (clock : Nat → Stamp) {message type body : Bytes}
    (hm : Inline message) (ht : Inline type) (hb : Inline body) :
    Agrees n (appendErrorEvent (landing clock) ctx message type body) ∧
      (appendErrorEvent (landing clock) ctx message type body).stores = ctx.stores := by
  unfold appendErrorEvent
  split
  · exact ⟨h, rfl⟩
  · dsimp only
    have hpayload : Inline (clip rtLarge (lit "\x7b\"message\":\"" ++ message ++ lit "\",\"type\":\"" ++ type ++
        lit "\",\"payload\":" ++ body ++ lit "\x7d")) :=
      Inline.take ((((((Inline.of_all (lit_all (by decide))).append hm).append (.of_all (lit_all (by decide)))).append
        ht).append (.of_all (lit_all (by decide)))).append hb |>.append (.of_all (by decide))) _
    have herror : PlainText (lit "error") := PlainText.of_all (lit_all (by decide))
    have hkernel : Inline (lit "kernel") := .of_all (lit_all (by decide))
    rcases callLine_eq h clock (lit "error") (lit "kernel") _ with hnone | hsome
    · rw [hnone]
      exact ⟨h, rfl⟩
    · rw [hsome]
      refine ⟨h.extend rfl rfl rfl (lineOf_inline herror hkernel hpayload).oneLine ?_, rfl⟩
      exact reduceLine_quiet _ herror (by rw [lit_ofList]; decide) hkernel hpayload

theorem ownerOf_message {σ : Type} {Q : Reducers σ} {type body message : Bytes} {s : σ} {r : σ × Bool}
    (h : ownerOf Q type body s = some (message, r)) : Inline message := by
  unfold ownerOf at h
  repeat' split at h
  all_goals first
    | (simp only [Option.some.injEq, Prod.mk.injEq] at h; rw [← h.1]; exact Inline.of_all (lit_all (by decide)))
    | simp at h

/-- The durable reducers leave the projected fields alone. -/
theorem ownerOf_fields {type body message : Bytes} {s : RunFields × τ} {r : (RunFields × τ) × Bool}
    (h : ownerOf (projecting R) type body s = some (message, r)) : r.1.1 = s.1 := by
  unfold ownerOf at h
  repeat' split at h
  all_goals first
    | (simp only [Option.some.injEq, Prod.mk.injEq] at h; rw [← h.2]; rfl)
    | simp at h

theorem Agrees.subsystem {ctx : LogContext (RunFields × τ)} (h : Agrees n ctx) {type body : Bytes} (ht : Inline type)
    (hb : Inline body) : Agrees n (applySubsystem (projecting R) (landing clock) ctx type body) ∧
      (applySubsystem (projecting R) (landing clock) ctx type body).stores.1 = ctx.stores.1 := by
  unfold applySubsystem
  split
  · exact ⟨h, rfl⟩
  · rename_i message stores ok howner
    have hfields : stores.1 = ctx.stores.1 := ownerOf_fields howner
    split
    · exact ⟨h.stores hfields, hfields⟩
    · obtain ⟨hagree, hsame⟩ := (h.stores hfields).error clock (ownerOf_message howner) ht hb
      exact ⟨hagree, by rw [hsame]; exact hfields⟩

theorem Agrees.workState {ctx : LogContext (RunFields × τ)} (h : Agrees n ctx) {type body : Bytes} (eventId : Bytes)
    (ht : Inline type) (hb : Inline body) :
    Agrees n (applyWorkState (projecting R) (landing clock) ctx type body eventId).1 := by
  unfold applyWorkState
  split
  · have hfields : ((projecting R).workStateApplyEvent type body eventId ctx.stores).1.1 = ctx.stores.1 := rfl
    split
    · rename_i stores hwork
      rw [hwork] at hfields
      exact h.stores hfields
    · rename_i stores hwork
      rw [hwork] at hfields
      exact ((h.stores hfields).error clock (.of_all (lit_all (by decide))) ht hb).1
  · exact h

/-- A landed line of any kind: the cold reducer makes of it what the projection made of the event. -/
theorem reduceLine_call {ctx : LogContext (RunFields × τ)} {call : AppendCall} (h : CallOk clock ctx call)
    (hline : callLine (landing clock) ctx call.type call.source call.body =
      some (lineOf n ctx.nextEvent (clock ctx.nextEvent) call.type call.source call.body ++ lit "\n")) :
    reduceLine ctx.stores.1 (lineOf n ctx.nextEvent (clock ctx.nextEvent) call.type call.source call.body) true =
      rtApplyEventToContext call.type call.body ctx.stores.1 := by
  have htype : PlainText call.type := safeEventType_plain h.type
  by_cases hp : projected call.type = true
  · have hr := h.readable hp
    have hshort : call.type.length < rtSmall := by
      have hmem : call.type ∈ [lit "user_message", lit "action_succeeded", lit "action_failed", lit "action_rejected"] := by
        simpa [projected, terminalTypes, List.contains_iff_mem] using hp
      have hall : ∀ t ∈ [lit "user_message", lit "action_succeeded", lit "action_failed", lit "action_rejected"],
          t.length < rtSmall := by decide +kernel
      exact hall _ hmem
    have hfit := hr.fits _ hline
    rw [List.length_append] at hfit
    have hnewline : (lit "\n").length = 1 := rfl
    exact reduceLine_read hp hr.body (lineOf_reads htype hshort hr.source hr.body (by omega)) hr.named hr.told
  · rw [Bool.not_eq_true] at hp
    rw [reduceLine_quiet _ htype hp h.source h.body, rtApplyEventToContext]
    rw [projected, Bool.or_eq_false_iff] at hp
    split
    · rfl
    · rw [if_neg (by simpa using hp.1), if_neg (by simpa using hp.2)]

/-- One append under the condition keeps the two readers together. -/
theorem Agrees.append {ctx : LogContext (RunFields × τ)} {call : AppendCall} (h : Agrees n ctx)
    (hcall : CallOk clock ctx call) : Agrees n (appendCall R clock ctx call) := by
  have htype : Inline call.type := .of_plain (safeEventType_plain hcall.type)
  unfold appendCall appendEvent
  split
  · exact h
  · unfold appendEventUnchecked
    split
    · rename_i eventId line _ hline
      rcases callLine_eq h clock call.type call.source call.body with hnone | hsome
      · rw [hnone] at hline
        cases hline
      · have hread := reduceLine_call hcall hsome
        rw [hsome, Option.some.injEq] at hline
        subst hline
        have hone : OneLine (lineOf n ctx.nextEvent (clock ctx.nextEvent) call.type call.source call.body) :=
          (lineOf_inline (safeEventType_plain hcall.type) hcall.source hcall.body).oneLine
        -- the line has landed and the projection has run; the durable reducers come after both
        have hlanded : Agrees n { ctx with
            nextEvent := ctx.nextEvent + 1
            log := ctx.log ++ (lineOf n ctx.nextEvent (clock ctx.nextEvent) call.type call.source call.body ++ lit "\n")
            stores := (projecting R).applyToContext call.type call.body ctx.stores } :=
          h.extend rfl rfl rfl hone hread
        have hlive := h.live
        simp only [writeLine, landing, written, decide_true]
        rw [if_neg (by simp [hlive])]
        exact (hlanded.subsystem htype hcall.body).1.workState eventId htype hcall.body
    · exact h

theorem Agrees.appends {ctx : LogContext (RunFields × τ)} {calls : List AppendCall} (h : Agrees n ctx)
    (hcalls : CallsOk R clock ctx calls) : Agrees n (appendCalls R clock ctx calls) := by
  induction calls generalizing ctx with
  | nil => exact h
  | cons call calls ih => exact ih (h.append hcalls.1) hcalls.2

theorem freshRun_agrees (n : RunNumber) (stores : τ) : Agrees n (freshRun n stores) :=
  ⟨rfl, rfl, [], rfl, by simp, rfl⟩

end Appends

/-! ## The texts -/

theorem runText_length (fields : RunFields) : (runText fields).length =
    (escapeCut rtLarge fields.userText).length + (escapeCut rtSmall fields.latestAction).length +
      (escapeCut rtLarge fields.latestResultText).length + (escapeCut rtLarge fields.latestMessage).length + 80 := by
  have h1 : (lit "\x7b\"user_text\":\"").length = 14 := lit_length _
  have h2 : (lit "\",\"latest_action\":\"").length = 19 := lit_length _
  have h3 : (lit "\",\"latest_result_text\":\"").length = 24 := lit_length _
  have h4 : (lit "\",\"latest_message\":\"").length = 20 := lit_length _
  have h5 : (lit "\"\x7d\n").length = 3 := by decide
  simp only [runText, List.length_append, h1, h2, h3, h4, h5]
  omega

theorem stateText_length (runState : Bytes) : (stateText runState).length = runState.length + 30 := by
  have h1 : (lit "\x7b\"user\":\x7b\"facts\":\x7b\x7d\x7d\n,\"run\":").length = 28 := lit_length _
  have h2 : (lit "\x7d\n").length = 2 := by decide
  simp only [stateText, List.length_append, h1, h2]
  omega

/-- The snapshot's own buffer always holds it. -/
theorem rtWriteStateSnapshot_whole (fields : RunFields) : rtWriteStateSnapshot fields = stateText (runText fields) := by
  have hu := escapeCut_length rtLarge (by decide) fields.userText
  have ha := escapeCut_length rtSmall (by decide) fields.latestAction
  have hr := escapeCut_length rtLarge (by decide) fields.latestResultText
  have hm := escapeCut_length rtLarge (by decide) fields.latestMessage
  apply clip_eq_self
  rw [stateText_length, runText_length]
  simp only [rtLarge, rtSmall, rtXl] at *
  omega

/-- In every run whose appends meet the condition, the replay of its log yields the snapshot of its context exactly
when the escaped fields fit the replay's intermediate buffer. -/
theorem replay_equals_snapshot_iff {τ : Type} (R : Reducers τ) (clock : Nat → Stamp) (n : RunNumber) (stores : τ)
    (calls : List AppendCall) (hcalls : CallsOk R clock (freshRun n stores) calls) :
    rtReduceEventLogText (appendCalls R clock (freshRun n stores) calls).log rtXl =
        some (rtWriteStateSnapshot (appendCalls R clock (freshRun n stores) calls).stores.1) ↔
      FieldsFit (appendCalls R clock (freshRun n stores) calls).stores.1 := by
  obtain ⟨lines, htext, hlines, hfold⟩ := ((freshRun_agrees n stores).appends hcalls).records
  rw [rtReduceEventLogText, htext, reduceRunStateText_lines hlines, hfold, rtWriteStateSnapshot_whole, FieldsFit]
  have hlength := runText_length (appendCalls R clock (freshRun n stores) calls).stores.1
  by_cases hfit : (runText (appendCalls R clock (freshRun n stores) calls).stores.1).length ≥ rtLarge * 2
  · rw [if_pos hfit]
    constructor
    · intro h
      cases h
    · intro h
      omega
  · rw [if_neg hfit]
    have hwhole := stateText_length (runText (appendCalls R clock (freshRun n stores) calls).stores.1)
    dsimp only
    rw [if_neg (by simp only [rtXl, rtLarge] at *; omega)]
    exact ⟨fun _ => by omega, fun _ => rfl⟩

/-! ## Two deliveries -/

/-- Stores that accept every event. -/
def acceptingStores : Reducers Unit where
  applyToContext _ _ s := s
  memoryApply _ _ s := (s, true)
  memoryApplyControl _ _ s := (s, true)
  taskApplyEvent _ _ s := (s, true)
  affairApplyEvent _ _ s := (s, true)
  operationApplyEvent _ _ s := (s, true)
  workStateApplyEvent _ _ _ s := (s, true)

def noon : Nat → Stamp := fun _ => ⟨lit "2025-01-01T12:00:00Z", lit_all (by decide)⟩

def userCall : AppendCall := ⟨lit "user_message", lit "console", lit "\x7b\"text\":\"hi\"\x7d"⟩

/-- The terminal of a delivered `message` with the given text. -/
def messageCall (text : String) : AppendCall :=
  ⟨lit "action_succeeded", lit "action_runner",
    lit "\x7b\"request_id\":\"r1\",\"action\":\"message\",\"run_id\":\"run_001\",\"job_id\":null," ++
      lit "\"result\":\x7b\"message\":\"" ++ lit text ++ lit "\"\x7d,\"error\":null\x7d"⟩

/-- An empty message after another one: the snapshot shows it, the replay still shows the first. -/
theorem empty_message_replayed_differently :
    rtReduceEventLogText (appendCalls acceptingStores noon (freshRun 1 ())
        [messageCall "hello", messageCall ""]).log rtXl ≠
      some (rtWriteStateSnapshot (appendCalls acceptingStores noon (freshRun 1 ())
        [messageCall "hello", messageCall ""]).stores.1) := by
  unfold messageCall
  repeat rw [lit_ofList]
  decide +kernel

/-- The condition on a call, evaluated; the delivery it makes, if any, is not empty. -/
theorem callOk_of_eval {τ : Type} {clock : Nat → Stamp} {ctx : LogContext (RunFields × τ)} {call : AppendCall}
    (htype : safeEventType call.type = true) (hsource : call.source.all isPlain = true)
    (hbody : call.body.all (fun c => c ≠ 0 && c ≠ ch '\n') = true) (hobj : jsonRefTopObject call.body = some call.body)
    (hfit : (callLine (landing clock) ctx call.type call.source call.body).all (fun l => l.length ≤ rtXl) = true)
    (hnamed : terminalTypes.contains call.type = true →
      (jsonRefObjectGetString call.body (lit "action") rtSmall).isSome = true)
    (htold : (jsonRefObjectGetString call.body (lit "action") rtSmall).all (fun action =>
      deliveredText call.body (call.type = lit "action_succeeded") action ≠ some []) = true) : CallOk clock ctx call := by
  refine ⟨htype, .of_plain (.of_all hsource), .of_all hbody, fun _ => ⟨.of_all hsource, .of_top hobj, ?_, hnamed, ?_⟩⟩
  · intro line hline
    rw [hline] at hfit
    simpa using hfit
  · intro action haction hempty
    rw [haction] at htold
    simp [hempty] at htold

theorem delivered_message_replayed :
    CallsOk acceptingStores noon (freshRun 1 ()) [userCall, messageCall "hello"] ∧
      rtReduceEventLogText (appendCalls acceptingStores noon (freshRun 1 ()) [userCall, messageCall "hello"]).log rtXl =
        some (rtWriteStateSnapshot (appendCalls acceptingStores noon (freshRun 1 ())
          [userCall, messageCall "hello"]).stores.1) := by
  have hok : CallsOk acceptingStores noon (freshRun 1 ()) [userCall, messageCall "hello"] := by
    unfold userCall messageCall
    repeat rw [lit_ofList]
    refine ⟨?_, ?_, trivial⟩
    · exact callOk_of_eval (by decide +kernel) (by decide +kernel) (by decide +kernel) (by decide +kernel)
        (by decide +kernel) (by decide +kernel) (by decide +kernel)
    · exact callOk_of_eval (by decide +kernel) (by decide +kernel) (by decide +kernel) (by decide +kernel)
        (by decide +kernel) (by decide +kernel) (by decide +kernel)
  have hfit : FieldsFit (appendCalls acceptingStores noon (freshRun 1 ()) [userCall, messageCall "hello"]).stores.1 := by
    unfold FieldsFit userCall messageCall
    repeat rw [lit_ofList]
    decide +kernel
  exact ⟨hok, (replay_equals_snapshot_iff acceptingStores noon 1 () [userCall, messageCall "hello"] hok).mpr hfit⟩

example : linesText [lit "a", lit "b"] = lit "a\nb\n" := by decide +kernel

end Floofclaw.Guarantees.Snapshot
