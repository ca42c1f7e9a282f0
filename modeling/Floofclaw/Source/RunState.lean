import Floofclaw.Source.LogFile

/-!
# The run state

Model of `state.c`: the projection every append applies to the run context, the
snapshot written from that context, and the cold reducer that computes the same
text from a frozen log. The two share only `note_action_terminal`. The media
and memory fields of the context are left out, since neither text shows them,
and so is the reducer's report of malformed lines, which is only narrated.
-/

set_option autoImplicit false

namespace Floofclaw.Source.RunState
open Floofclaw.Lib Floofclaw.Source.Json Floofclaw.Source.LogFile

/-- The projected fields that `state.json` shows. -/
structure RunFields where
  userText : Bytes
  latestAction : Bytes
  latestResultText : Bytes
  latestMessage : Bytes
  deriving DecidableEq, Repr

/-- The fields of a context that is all zeros. -/
def RunFields.empty : RunFields := ⟨[], [], [], []⟩

/-! ## The projection -/

/-- The first of the named members that is a string and fits. -/
def firstString (obj : JsonRef) (cap : Nat) (keys : List Bytes) : Option Bytes :=
  keys.findSome? fun key => jsonRefObjectGetString obj key cap

def resultKeys : List Bytes := [lit "message", lit "content", lit "value", lit "text", lit "path"]

/-- The text a terminal leaves: a named member of its result, the compacted result, or for a failure its error. -/
def terminalText (payload : JsonRef) (succeeded : Bool) : Bytes :=
  let result := jsonRefObjectGetObject payload (lit "result")
  match result.bind fun r => firstString r rtLarge resultKeys with
  | some text => text
  | none =>
    match result.bind fun r => (jsonRefValueCopy rtLarge r).bind (jsonCompact rtLarge) with
    | some text => text
    | none =>
      if succeeded then lit "succeeded"
      else
        match (jsonRefObjectGetObject payload (lit "error")).bind fun e =>
            jsonRefObjectGetString e (lit "message") rtLarge with
        | some text => text
        | none => (jsonRefObjectGetString payload (lit "message") rtLarge).getD (lit "failed")

/-- The text of a successful `message`. -/
def deliveredText (payload : JsonRef) (succeeded : Bool) (action : Bytes) : Option Bytes :=
  if succeeded ∧ action = lit "message" then
    (jsonRefObjectGetObject payload (lit "result")).bind fun r => jsonRefObjectGetString r (lit "message") rtLarge
  else none

def noteActionTerminal (fields : RunFields) (payload : JsonRef) (succeeded : Bool) : RunFields :=
  match jsonRefObjectGetString payload (lit "action") rtSmall with
  | none => fields
  | some action =>
    { fields with
      latestAction := action
      latestResultText := terminalText payload succeeded
      latestMessage := (deliveredText payload succeeded action).getD fields.latestMessage }

def terminalTypes : List Bytes := [lit "action_succeeded", lit "action_failed", lit "action_rejected"]

def rtApplyEventToContext (type payloadJson : Bytes) (fields : RunFields) : RunFields :=
  match jsonRefFirstObject payloadJson with
  | none => fields
  | some payload =>
    if type = lit "user_message" then
      { fields with userText := stringField payload (lit "text") rtLarge fields.userText }
    else if terminalTypes.contains type then noteActionTerminal fields payload (type = lit "action_succeeded")
    else fields

/-! ## The two texts -/

/-- `json_escape` into a buffer; what does not fit is cut off and only warned about. -/
def escapeCut (cap : Nat) (s : Bytes) : Bytes := (jsonEscape cap s).1

theorem escapeCut_length (cap : Nat) (hcap : 0 < cap) (s : Bytes) : (escapeCut cap s).length < cap := by
  rw [escapeCut, jsonEscape, if_neg (by omega)]
  exact escapeLoop_length (by simpa using hcap)

def runText (fields : RunFields) : Bytes :=
  lit "\x7b\"user_text\":\"" ++ escapeCut rtLarge fields.userText ++ lit "\",\"latest_action\":\"" ++
    escapeCut rtSmall fields.latestAction ++ lit "\",\"latest_result_text\":\"" ++
    escapeCut rtLarge fields.latestResultText ++ lit "\",\"latest_message\":\"" ++
    escapeCut rtLarge fields.latestMessage ++ lit "\"\x7d\n"

def stateText (runState : Bytes) : Bytes := lit "\x7b\"user\":\x7b\"facts\":\x7b\x7d\x7d\n,\"run\":" ++ runState ++ lit "\x7d\n"

/-- The text `rt_write_state_snapshot` writes to `state.json`. -/
def rtWriteStateSnapshot (fields : RunFields) : Bytes := clip rtXl (stateText (runText fields))

/-! ## The cold reducer -/

/-- `next_line`: the record, whether it ends in a newline, and the text behind it. -/
def nextLine (cursor : Bytes) : Bytes × Bool × Bytes :=
  let line := cursor.takeWhile (· ≠ ch '\n')
  (line, line.length < cursor.length, cursor.drop (line.length + 1))

/-- What the reducer reads off a record; `none` is a malformed line. -/
def lineEvent (line : Bytes) (terminated : Bool) : Option (Bytes × JsonRef) :=
  if terminated = false ∨ line.length + 1 > rtXl then none
  else
    match jsonRefTopObject line with
    | none => none
    | some event =>
      match jsonRefObjectGetString event (lit "type") rtSmall, jsonRefObjectGetObject event (lit "payload") with
      | some type, some payload => some (type, payload)
      | _, _ => none

/-- One record. A terminal is noted in a zeroed context, and its message is taken over when it is not empty. -/
def reduceLine (fields : RunFields) (line : Bytes) (terminated : Bool) : RunFields :=
  match lineEvent line terminated with
  | none => fields
  | some (type, payload) =>
    if type = lit "user_message" then
      { fields with userText := stringField payload (lit "text") rtLarge fields.userText }
    else if terminalTypes.contains type then
      let tmp := noteActionTerminal .empty payload (type = lit "action_succeeded")
      { fields with
        latestAction := tmp.latestAction
        latestResultText := tmp.latestResultText
        latestMessage := if tmp.latestMessage = [] then fields.latestMessage else tmp.latestMessage }
    else fields

/-- The loop over the records. Every pass takes one octet at least, so the length of the text bounds it. -/
def reduceLoop : Nat → Bytes → RunFields → RunFields
  | 0, _, fields => fields
  | _ + 1, [], fields => fields
  | n + 1, c :: s, fields =>
    match nextLine (c :: s) with
    | (line, terminated, rest) => reduceLoop n rest (reduceLine fields line terminated)

def reduceRunStateText (eventText : Bytes) (outLen : Nat) : Option Bytes :=
  let text := runText (reduceLoop eventText.length eventText .empty)
  if text.length ≥ outLen then none else some text

def rtReduceEventLogText (eventText : Bytes) (outLen : Nat) : Option Bytes :=
  match reduceRunStateText eventText (rtLarge * 2) with
  | none => none
  | some runState => if (stateText runState).length ≥ outLen then none else some (stateText runState)

/-! ## A run -/

/-- The reducers of a run whose projection is the one above; whatever the durable stores do, they do it beside it. -/
def projecting {τ : Type} (R : Reducers τ) : Reducers (RunFields × τ) where
  applyToContext type body s := (rtApplyEventToContext type body s.1, R.applyToContext type body s.2)
  memoryApply type body s := ((s.1, (R.memoryApply type body s.2).1), (R.memoryApply type body s.2).2)
  memoryApplyControl type body s :=
    ((s.1, (R.memoryApplyControl type body s.2).1), (R.memoryApplyControl type body s.2).2)
  taskApplyEvent type body s := ((s.1, (R.taskApplyEvent type body s.2).1), (R.taskApplyEvent type body s.2).2)
  affairApplyEvent type body s := ((s.1, (R.affairApplyEvent type body s.2).1), (R.affairApplyEvent type body s.2).2)
  operationApplyEvent type body s :=
    ((s.1, (R.operationApplyEvent type body s.2).1), (R.operationApplyEvent type body s.2).2)
  workStateApplyEvent type body eventId s :=
    ((s.1, (R.workStateApplyEvent type body eventId s.2).1), (R.workStateApplyEvent type body eventId s.2).2)

end Floofclaw.Source.RunState
