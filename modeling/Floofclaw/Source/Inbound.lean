import Floofclaw.Source.EventLog

/-!
# Inbound envelopes

Model of the intake half of `ports.c`: the parser of a bus envelope, the run
context it populates, and the first line `commit_inbound_event` appends. The
media manifest on disk is behind a parameter; the operation record a completion
claim resolves to is an argument. An envelope is the text of its file.
-/

set_option autoImplicit false

namespace Floofclaw.Source.Inbound
open Floofclaw.Lib Floofclaw.Source.Json Floofclaw.Source.EventLog

def busTypeMax : Nat := 64
def busChannelMax : Nat := 64
def busCustomTypeMax : Nat := 63
def busRoutingAdapterMax : Nat := 64
def busRoutingContextMax : Nat := 128
def busRoutingRefMax : Nat := 512
def rtEventPayloadMax : Nat := 16384
def rtOperationResultTextMax : Nat := 8192
def rtOperationTokenHex : Nat := 64
def fcMediaMaxItems : Int := 10
def fcMediaMaxTotalBytes : Int := 50 * 1024 * 1024
def fcMediaSha256HexSize : Nat := 65
def fcMediaManifestPathSize : Nat := 128
def fcMediaRefJsonSize : Nat := 384

/-- The `is_*` flags of a parsed envelope, of which at most one is set. -/
inductive EnvelopeKind
  | userMessage | affairReview | actionExec | correlated | completion | custom
  deriving DecidableEq, Repr

structure ParsedEnvelope where
  kind : EnvelopeKind
  envelopeId : Bytes
  originEventId : Bytes
  type : Bytes
  channel : Bytes
  userText : Bytes
  adapterId : Bytes
  contextId : Bytes
  ref : Option Bytes
  affairId : Bytes
  action : Bytes
  actionTaskId : Bytes
  actionArgs : Bytes
  payload : Bytes
  mediaRef : Option Bytes
  operationId : Bytes
  completionToken : Bytes
  claimCause : Bytes
  deriving DecidableEq

/-! ## Types -/

def isLetter (c : Byte) : Bool := (97 ≤ c && c ≤ 122) || (65 ≤ c && c ≤ 90)

def busTypeTokenValid (type : Bytes) : Bool :=
  match type with
  | [] => false
  | c :: rest =>
    decide (type.length ≤ busCustomTypeMax) && isLetter c && rest.all fun c =>
      isLetter c || isDigit c || c = ch '_' || c = ch '.' || c = ch ':' || c = ch '-'

def busTypeIsReserved (type : Bytes) : Bool :=
  type.isEmpty || [lit "user_", lit "action_", lit "affair_", lit "operation_", lit "work_", lit "task_", lit "run_",
    lit "memory_"].any fun p => p.isPrefixOf type

def envelopeKind (type : Bytes) : Except Bytes EnvelopeKind :=
  if type = lit "user_message" then .ok .userMessage
  else if type = lit "affair_review" then .ok .affairReview
  else if type = lit "action_exec" then .ok .actionExec
  else if [lit "operation_result", lit "work_step_result", lit "work_outcome"].contains type then .ok .correlated
  else if type = lit "operation_completed" then .ok .completion
  else if !busTypeTokenValid type then .error (lit "invalid_field: type (" ++ type ++ lit ")")
  else if busTypeIsReserved type then .error (lit "reserved_envelope_type: " ++ type)
  else .ok .custom

/-! ## Media -/

structure FcMediaManifestRef where
  manifest : Bytes
  sha256 : Bytes
  count : Int
  totalBytes : Int

def mediaRefSha256Valid (sha256 : Bytes) : Bool :=
  decide (sha256.length = fcMediaSha256HexSize - 1) && sha256.all fun c => isDigit c || (97 ≤ c && c ≤ 102)

def manifestPath (sha256 : Bytes) : Bytes := lit "media/inbound/" ++ sha256 ++ lit ".json"

def mediaRefParse (media : JsonRef) : Except Bytes FcMediaManifestRef :=
  if jsonRefInferType media ≠ .object ∨ jsonRefObjectGetLong media (lit "version") 0 ≠ (1, true) then
    .error (lit "invalid_field: payload.media.version")
  else
    match jsonRefObjectGetString media (lit "manifest") fcMediaManifestPathSize,
        jsonRefObjectGetString media (lit "sha256") fcMediaSha256HexSize with
    | some manifest, some sha256 =>
      if !mediaRefSha256Valid sha256 || manifest ≠ manifestPath sha256 then
        .error (lit "invalid_field: payload.media.manifest")
      else
        match jsonRefObjectGetLong media (lit "count") 0, jsonRefObjectGetLong media (lit "total_bytes") 0 with
        | (count, okCount), (total, okTotal) =>
          if !okCount || count < 1 || fcMediaMaxItems < count then .error (lit "invalid_field: payload.media.count")
          else if !okTotal || total ≤ 0 || fcMediaMaxTotalBytes < total then
            .error (lit "invalid_field: payload.media.total_bytes")
          else .ok { manifest := manifest, sha256 := sha256, count := count, totalBytes := total }
    | _, _ => .error (lit "invalid_field: payload.media.manifest")

/-- `fc_media_manifest_ref_json`, on a reference `media_ref_parse` made: its own checks are the same. -/
def fcMediaManifestRefJson (ref : FcMediaManifestRef) : Option Bytes :=
  let out := objText [(lit "version", lit "1"), (lit "manifest", quoted ref.manifest), (lit "sha256", quoted ref.sha256),
    (lit "count", decInt ref.count), (lit "total_bytes", decInt ref.totalBytes)]
  if out.length ≥ fcMediaRefJsonSize then none else some out

/-- The media branch of a user message; `manifestRead` gives the reason when the manifest is refused. -/
def parseMedia (manifestRead : FcMediaManifestRef → Option Bytes) (payload : JsonRef) : Except Bytes (Option Bytes) :=
  match jsonRefObjectGet payload (lit "media") with
  | none => .ok none
  | some media =>
    if jsonRefInferType media ≠ .object then .error (lit "invalid_field: payload.media")
    else
      match mediaRefParse media with
      | .error reason => .error reason
      | .ok ref =>
        match manifestRead ref with
        | some reason => .error reason
        | none =>
          match fcMediaManifestRefJson ref with
          | none => .error (lit "invalid_field: payload.media")
          | some json => .ok (some json)

/-! ## Parsing -/

/-- What the kind's own branch of the parser reads out of the payload. -/
structure Body where
  originEventId : Bytes := []
  userText : Bytes := []
  affairId : Bytes := []
  action : Bytes := []
  actionTaskId : Bytes := []
  actionArgs : Bytes := []
  mediaRef : Option Bytes := none
  operationId : Bytes := []
  completionToken : Bytes := []
  claimCause : Bytes := []

/-- A required non-empty string. -/
def requiredString (obj : JsonRef) (key : Bytes) (outLen : Nat) : Option Bytes :=
  (jsonRefObjectGetString obj key outLen).filter fun s => !s.isEmpty

def parseActionExec (payload : JsonRef) : Except Bytes Body :=
  match requiredString payload (lit "action") rtSmall with
  | none => .error (lit "missing_required_field: payload.action")
  | some action =>
    match (jsonRefObjectGetObject payload (lit "args")).bind (jsonRefValueCopy rtLarge) with
    | none => .error (lit "missing_or_invalid_field: payload.args")
    | some args =>
      .ok { action := action, actionArgs := args, actionTaskId := stringField payload (lit "task_id") rtSmall [] }

/-- `json_ref_string_dup`, whose buffer holds any decoded text. -/
def jsonRefStringDup (v : JsonRef) : Option Bytes := jsonRefStringCopy (v.length + 1) v

/-- The ceiling on the decoded result text, asked only of a span that could exceed it. -/
def resultTooLarge (result : JsonRef) : Bool :=
  match jsonRefObjectGet result (lit "text") with
  | none => false
  | some v =>
    jsonRefInferType v = .string && decide (v.length > rtOperationResultTextMax) &&
      match jsonRefStringDup v with
      | none => true
      | some decoded => decide (decoded.length > rtOperationResultTextMax)

def claimKeyForeign (key : Bytes) : Bool :=
  !([lit "operation_id", lit "completion_token", lit "cause", lit "result"].contains key)

def claimStatusOk (result : JsonRef) : Bool :=
  match jsonRefObjectGetString result (lit "status") rtSmall with
  | none => false
  | some status => status = lit "succeeded" || status = lit "failed"

def parseCompletion (payload : JsonRef) : Except Bytes Body :=
  if iterFinds rtSmall claimKeyForeign payload payload.length 0 then .error (lit "claim_carries_runtime_owned_field")
  else
    match requiredString payload (lit "operation_id") rtSmall with
    | none => .error (lit "missing_required_field: payload.operation_id")
    | some operationId =>
      match requiredString payload (lit "completion_token") (rtOperationTokenHex + 1) with
      | none => .error (lit "missing_required_field: payload.completion_token")
      | some token =>
        let cause := (requiredString payload (lit "cause") rtSmall).getD (lit "worker")
        if cause ≠ lit "worker" ∧ cause ≠ lit "timeout" then .error (lit "invalid_field: payload.cause")
        else
          match jsonRefObjectGetObject payload (lit "result") with
          | none => .error (lit "missing_required_field: payload.result")
          | some result =>
            if cause = lit "worker" ∧ claimStatusOk result = false then
              .error (lit "invalid_field: payload.result.status")
            else if resultTooLarge result then .error (lit "result_payload_too_large")
            else .ok { operationId := operationId, completionToken := token, claimCause := cause }

def parseAffairReview (payload : JsonRef) : Except Bytes Body :=
  match requiredString payload (lit "affair_id") rtSmall with
  | none => .error (lit "missing_required_field: payload.affair_id")
  | some affairId =>
    let text := stringField payload (lit "text") rtLarge []
    .ok { affairId := affairId, userText := if text = [] then lit "(affair review)" else text }

def parseUserMessage (manifestRead : FcMediaManifestRef → Option Bytes) (payload : JsonRef) : Except Bytes Body :=
  match jsonRefObjectGetString payload (lit "text") rtLarge with
  | none => .error (lit "missing_required_field: payload.text")
  | some text =>
    match parseMedia manifestRead payload with
    | .error reason => .error reason
    | .ok media => .ok { userText := text, mediaRef := media }

def parseBody (manifestRead : FcMediaManifestRef → Option Bytes) (kind : EnvelopeKind) (payload : JsonRef) :
    Except Bytes Body :=
  match kind with
  | .actionExec => parseActionExec payload
  | .correlated =>
    .ok { userText := (jsonRefObjectGetString payload (lit "text") rtLarge).getD []
          originEventId := stringField payload (lit "origin_event_id") rtSmall [] }
  | .completion => parseCompletion payload
  | .affairReview => parseAffairReview payload
  | .custom => .ok {}
  | .userMessage => parseUserMessage manifestRead payload

/-- Where an answer goes. -/
structure Route where
  adapterId : Bytes := []
  contextId : Bytes := []
  ref : Option Bytes := none

/-- `routing_string`: an absent member is empty, a malformed or long one is refused. -/
def routingString (routing : JsonRef) (key : Bytes) (outLen maxBytes : Nat) : Option Bytes :=
  match jsonRefObjectGet routing key with
  | none => some []
  | some v =>
    if jsonRefInferType v ≠ .string then none
    else (jsonRefStringCopy outLen v).filter fun s => decide (s.length ≤ maxBytes)

/-- The routing block of a custom envelope. -/
def parseRouting (root : JsonRef) : Except Bytes Route :=
  match jsonRefObjectGet root (lit "routing") with
  | none => .ok {}
  | some routing =>
    if jsonRefInferType routing ≠ .object then .error (lit "invalid_field: routing")
    else
      match routingString routing (lit "adapter_id") rtSmall busRoutingAdapterMax with
      | none => .error (lit "invalid_field: routing.adapter_id")
      | some adapterId =>
        match routingString routing (lit "context_id") rtMed busRoutingContextMax with
        | none => .error (lit "invalid_field: routing.context_id")
        | some contextId =>
          if (lit "action:").isPrefixOf contextId then .error (lit "invalid_field: routing.context_id")
          else
            match jsonRefObjectGet routing (lit "ref") with
            | none => .ok { adapterId := adapterId, contextId := contextId }
            | some ref =>
              if jsonRefInferType ref ≠ .object then .error (lit "invalid_field: routing.ref")
              else
                match (jsonRefValueCopy rtLarge ref).filter fun s => decide (s.length ≤ busRoutingRefMax) with
                | none => .error (lit "invalid_field: routing.ref")
                | some ref => .ok { adapterId := adapterId, contextId := contextId, ref := some ref }

/-- The route of every other kind, read from its payload. -/
def payloadRoute (payload : JsonRef) : Route :=
  { adapterId := stringField payload (lit "adapter_id") rtSmall []
    contextId := stringField payload (lit "context_id") rtMed []
    ref := (jsonRefObjectGetObject payload (lit "ref")).bind (jsonRefValueCopy rtLarge) }

/-- The channel of an envelope; the buffer starts as `bus`. -/
def channelField (root : JsonRef) : Bytes :=
  let channel := stringField root (lit "channel") busChannelMax (lit "bus")
  if channel = [] then lit "bus" else channel

def parseInboundEnvelope (manifestRead : FcMediaManifestRef → Option Bytes) (text : Bytes) :
    Except Bytes ParsedEnvelope :=
  match jsonRefFirstObject text with
  | none => .error (lit "envelope_not_a_json_object")
  | some root =>
    match jsonRefObjectGetString root (lit "type") busTypeMax with
    | none => .error (lit "missing_required_field: type")
    | some type =>
      match envelopeKind type with
      | .error reason => .error reason
      | .ok kind =>
        match jsonRefObjectGetObject root (lit "payload") with
        | none => .error (lit "missing_required_field: payload")
        | some payload =>
          match jsonRefValueCopy rtEventPayloadMax payload with
          | none => .error (lit "payload_too_large")
          | some payloadJson =>
            match parseBody manifestRead kind payload,
                if kind = .custom then parseRouting root else .ok (payloadRoute payload) with
            | .error reason, _ => .error reason
            | .ok _, .error reason => .error reason
            | .ok body, .ok route =>
              .ok
                { kind := kind, type := type, payload := payloadJson, channel := channelField root,
                  envelopeId := stringField root (lit "event_id") rtSmall [], originEventId := body.originEventId,
                  userText := body.userText, affairId := body.affairId, action := body.action,
                  actionTaskId := body.actionTaskId, actionArgs := body.actionArgs, mediaRef := body.mediaRef,
                  operationId := body.operationId, completionToken := body.completionToken,
                  claimCause := body.claimCause, adapterId := route.adapterId, contextId := route.contextId,
                  ref := route.ref }

/-! ## Populating -/

/-- The durable record a claim resolves to, as `load_store` fills it. -/
structure RtOperationSnapshot where
  handle : Bytes
  workerHandle : Bytes
  action : Bytes
  requestId : Bytes
  triggerEventId : Bytes
  taskId : Bytes
  contextId : Bytes
  channel : Bytes
  adapterId : Bytes
  originEventId : Bytes
  refJson : Bytes
  workRev : Int
  nulFree : ∀ s ∈ [handle, workerHandle, action, requestId, triggerEventId, taskId, contextId, channel, adapterId,
    originEventId], NulFree s
  routed : channel.length < rtSmall ∧ adapterId.length < rtSmall
  refOk : refJson = [] ∨ CleanValue refJson

/-- The run fields an envelope fills, with the type and payload of the first event. -/
structure InboundContext where
  eventType : Bytes
  payload : Bytes
  originEventId : Bytes
  originChannel : Bytes
  originAdapterId : Bytes
  originRef : Bytes
  inboundAffairId : Bytes
  contextId : Bytes
  deriving DecidableEq

/-- The result object of a claim. -/
def claimResult (env : ParsedEnvelope) : Option JsonRef :=
  (jsonRefTopObject env.payload).bind fun claim => jsonRefObjectGetObject claim (lit "result")

def claimStatus (env : ParsedEnvelope) : Bytes :=
  match claimResult env with
  | none => []
  | some result => stringField result (lit "status") rtSmall []

/-- The claim's text. The buffer is fresh memory with a terminator in front, so a decode that fails half
way runs on into whatever the allocation held. -/
def claimText (heap : Bytes) (env : ParsedEnvelope) : Bytes :=
  match claimResult env with
  | none => []
  | some result => cstr (stringField result (lit "text") (rtOperationResultTextMax + 1) (0 :: heap))

def resultStatus (env : ParsedEnvelope) : Bytes :=
  if env.claimCause = lit "timeout" then lit "timed_out"
  else if claimStatus env = lit "failed" then lit "failed"
  else lit "succeeded"

def resultText (heap : Bytes) (op : RtOperationSnapshot) (env : ParsedEnvelope) : Bytes :=
  if env.claimCause = lit "timeout" ∧ claimText heap env = [] then
    clip (rtOperationResultTextMax + 1)
      (lit "Managed operation " ++ (if op.action = [] then lit "(unknown)" else op.action) ++
        lit " reached its completion deadline; FloofClaw stopped waiting. Its external work may still be running " ++
        lit "and was not retried.")
  else claimText heap env

/-- The correlation members of the canonical result. -/
def corrMembers (op : RtOperationSnapshot) (etask ectx ech ead eorigin : Bytes) : List (Bytes × Bytes) :=
  [(lit "task_id", quoted etask), (lit "context_id", quoted ectx), (lit "channel", quoted ech),
    (lit "adapter_id", quoted ead), (lit "origin_event_id", quoted eorigin),
    (lit "ref", if op.refJson = [] then lit "null" else op.refJson)]

def populateCompletionContext (heap runId : Bytes) (op : RtOperationSnapshot) (env : ParsedEnvelope) :
    Option InboundContext := do
  guard ((eventIdText runId 1).length < rtSmall)
  let eh ← mirror rtMed op.handle
  let ewh ← mirror rtMed op.workerHandle
  let ea ← mirror rtMed op.action
  let erid ← mirror rtMed op.requestId
  let etrigger ← mirror rtMed op.triggerEventId
  let esource ← mirror rtMed (eventIdText runId 1)
  let estatus ← mirror rtMed (resultStatus env)
  let etext ← mirror rtEventPayloadMax (resultText heap op env)
  let ectx ← mirror rtMed op.contextId
  let ech ← mirror rtMed op.channel
  let ead ← mirror rtMed op.adapterId
  let etask ← mirror rtMed op.taskId
  let eorigin ← mirror rtMed op.originEventId
  let corr := corrMembers op etask ectx ech ead eorigin
  guard ((membersText corr).length < rtLarge)
  let payload := objText ([(lit "handle", quoted eh), (lit "worker_handle", quoted ewh), (lit "action", quoted ea),
    (lit "request_id", quoted erid), (lit "trigger_event_id", quoted etrigger), (lit "work_rev", decInt op.workRev),
    (lit "source_event_id", quoted esource)] ++ corr ++ [(lit "status", quoted estatus), (lit "text", quoted etext)])
  guard (payload.length < rtEventPayloadMax)
  return { eventType := lit "operation_result", payload := payload, originEventId := op.originEventId,
           originChannel := op.channel, originAdapterId := op.adapterId, originRef := op.refJson, inboundAffairId := [],
           contextId := op.contextId }

def inboundEventType (env : ParsedEnvelope) : Bytes :=
  match env.kind with
  | .correlated | .custom => env.type
  | .affairReview => lit "affair_review"
  | .actionExec => lit "action_exec"
  | .userMessage | .completion => lit "user_message"

/-- A context id made of the channel and the narrowest id the envelope gives. -/
def scopedContextId (scope : Bytes) (env : ParsedEnvelope) : Bytes :=
  if env.contextId ≠ [] then clip rtMed (scope ++ env.channel ++ lit ":" ++ env.contextId)
  else if env.adapterId ≠ [] then clip rtMed (scope ++ env.channel ++ lit ":" ++ env.adapterId)
  else clip rtMed (scope ++ env.channel)

/-- The context of an envelope that is no completion claim. -/
def inboundContextId (env : ParsedEnvelope) : Bytes :=
  match env.kind with
  | .actionExec => clip rtMed (lit "action:cli:" ++ env.envelopeId)
  | .custom =>
    if (lit "event:").isPrefixOf env.contextId || (lit "chat:").isPrefixOf env.contextId then env.contextId
    else scopedContextId (lit "event:") env
  | _ => if (lit "chat:").isPrefixOf env.contextId then env.contextId else scopedContextId (lit "chat:") env

def originId (env : ParsedEnvelope) : Bytes :=
  if env.kind = .correlated ∧ env.originEventId ≠ [] then env.originEventId else env.envelopeId

/-- `json_escape` whose failure leaves the empty string. -/
def escapeOrEmpty (outLen : Nat) (s : Bytes) : Bytes := (mirror outLen s).getD []

/-- The members shared by the kinds that carry a text: channel and adapter go in as they are. -/
def textMembers (env : ParsedEnvelope) (escapedText : Bytes) : List (Bytes × Bytes) :=
  [(lit "text", quoted escapedText), (lit "origin_event_id", quoted (escapeOrEmpty (rtSmall * 2) (originId env))),
    (lit "channel", quoted env.channel), (lit "adapter_id", quoted env.adapterId)] ++
  (match env.ref with
    | none => []
    | some ref => [(lit "ref", ref)])

/-- The payload of the first event by kind; every format but two is written without a look at its length. -/
def inboundPayload (env : ParsedEnvelope) (escapedText : Bytes) : Option Bytes :=
  match env.kind with
  | .actionExec => do
    let eaction ← mirror rtMed env.action
    let eorigin ← mirror rtMed env.envelopeId
    let etask ← mirror rtMed env.actionTaskId
    return clip rtEventPayloadMax (objText ([(lit "action", quoted eaction),
      (lit "args", if env.actionArgs = [] then lit "\x7b\x7d" else env.actionArgs),
      (lit "origin_event_id", quoted eorigin)] ++ if etask = [] then [] else [(lit "task_id", quoted etask)]))
  | .correlated => some (clip rtEventPayloadMax env.payload)
  | .custom => if env.payload.length ≥ rtEventPayloadMax then none else some env.payload
  | .affairReview =>
    some (clip rtEventPayloadMax (objText ((lit "affair_id", quoted (escapeOrEmpty (rtSmall * 2) env.affairId)) ::
      textMembers env escapedText)))
  | .userMessage | .completion =>
    match env.mediaRef with
    | none => some (clip rtEventPayloadMax (objText (textMembers env escapedText)))
    | some media =>
      let payload := objText (textMembers env escapedText ++ [(lit "media", media)])
      if payload.length ≥ rtEventPayloadMax then none else some payload

/-- `populate_inbound_context`. -/
def populateInboundContext (heap runId : Bytes) (op : Option RtOperationSnapshot) (env : ParsedEnvelope) :
    Option InboundContext :=
  if env.kind = .completion then op.bind fun op => populateCompletionContext heap runId op env
  else do
    let escapedText ← mirror (rtLarge * 2) env.userText
    let payload ← inboundPayload env escapedText
    return { eventType := inboundEventType env, payload := payload, originEventId := originId env,
             originChannel := env.channel, originAdapterId := env.adapterId, originRef := env.ref.getD [],
             inboundAffairId := env.affairId, contextId := inboundContextId env }

/-! ## The first line -/

/-- The text of `iso_time`, digits and punctuation, empty when the clock fails. -/
structure Stamp where
  text : Bytes
  plain : text.all isPlain = true

/-- The number of a fresh run: an `int`. -/
abbrev RunNumber : Type := Fin (2 ^ 31)

def runIdOf (n : RunNumber) : Bytes := lit "run_" ++ decPadded 3 n

/-- The line `append_event_unchecked` writes, short of its newline. -/
def eventLine (eventId ts type source runId body : Bytes) : Bytes :=
  objText [(lit "event_id", quoted eventId), (lit "ts", quoted ts), (lit "type", quoted type),
    (lit "source", quoted source), (lit "run_id", quoted runId), (lit "payload", body)]

end Floofclaw.Source.Inbound
