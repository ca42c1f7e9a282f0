import Floofclaw.Source.MessageStream
import Floofclaw.Source.Usage
import Mathlib.Data.List.DropRight

/-!
# The Gemini event stream

Model of the streaming side of `llm/http.c` and of `llm_extract_gemini_text`:
the octets of a response are cut into lines, a data line is an event, its text
goes to the reply and to the message decoder, its usage to the counters of the
call. The sink of the decoder is a parameter; allocations succeed. A counter
whose sum overflowed has no value.
-/

set_option autoImplicit false

namespace Floofclaw.Source.GeminiStream
open Floofclaw.Lib Floofclaw.Source.Json Floofclaw.Source.MessageStream Floofclaw.Source.Usage

def llmHttpResponseCap : Nat := llmRespMax - 1

def geminiKey : Bytes := lit "gemini_key"

/-! ## The text of an event -/

/-- `json_ref_object_get_bool` succeeds with true. -/
def isThought (part : JsonRef) : Bool :=
  match jsonRefObjectGet part (lit "thought") with
  | none => false
  | some v => jsonRefInferType v = .bool && v = lit "true"

def partText (outLen : Nat) (parts : JsonRef) (i : Nat) : Option Bytes :=
  match jsonRefArrayGet parts i with
  | none => none
  | some part =>
    if jsonRefInferType part ≠ .object ∨ isThought part = true then none
    else jsonRefObjectGetString part (lit "text") outLen

/-- The first part that is no thought and has a text. -/
def llmExtractGeminiText (responseJson : Bytes) (outLen : Nat) : Option Bytes := do
  let root ← jsonRefFirstObject responseJson
  let candidates ← jsonRefObjectGetArray root (lit "candidates")
  let candidate ← jsonRefArrayGet candidates 0
  let content ← jsonRefObjectGetObject candidate (lit "content")
  let parts ← jsonRefObjectGetArray content (lit "parts")
  (List.range (jsonRefArraySize parts)).findSome? (partText outLen parts)

/-! ## Lines -/

structure GeminiStreamState where
  raw : Bytes
  line : Bytes
  modelText : Bytes
  decoder : LlmMessageStream
  usage : Option LlmUsage
  failed : Bool

def isLineEnd (c : Byte) : Bool := c == ch '\r' || c == ch '\n'

/-- The payload of a data line; no other line says anything. -/
def dataPayload (line : Bytes) : Option Bytes :=
  let text := line.rdropWhile isLineEnd
  if text = [] ∨ text.head? = some (ch ':') ∨ text.take 5 ≠ lit "data:" then none
  else
    let payload := cstr ((text.drop 5).dropWhile fun c => c == ch ' ' || c == ch '\t')
    if payload = [] ∨ payload = lit "[DONE]" then none else some payload

/-- An event's text behind the reply and to the decoder. -/
def takeDelta (sink : Bytes → Bool) (s : GeminiStreamState) (delta : Bytes) : GeminiStreamState × Bool :=
  if llmRespMax < s.modelText.length + delta.length + 1 then (s, false)
  else
    match llmMessageStreamFeed sink s.decoder delta with
    | (decoder, ok) => ({ s with modelText := s.modelText ++ delta, decoder := decoder }, ok)

def geminiStreamProcessLine (sink : Bytes → Bool) (s : GeminiStreamState) : GeminiStreamState × Bool :=
  match dataPayload s.line with
  | none => (s, true)
  | some payload =>
    let s := { s with usage := s.usage.bind (llmExtractUsage geminiKey payload) }
    match llmExtractGeminiText payload llmRespMax with
    -- Usage or metadata of the provider only.
    | none => (s, true)
    | some delta => takeDelta sink s delta

def GeminiStreamState.fail (s : GeminiStreamState) : GeminiStreamState := { s with failed := true }

/-- The loop of `gemini_stream_write_cb` over what one call brings. -/
def writeLoop (sink : Bytes → Bool) : Nat → GeminiStreamState → Bytes → GeminiStreamState
  | 0, s, _ => s
  | n + 1, s, bytes =>
    if bytes = [] then s
    else
      let part := bytes.takeWhile (· ≠ ch '\n')
      if llmRespMax < s.line.length + part.length + 1 then s.fail
      else
        let s := { s with line := s.line ++ part }
        match bytes.dropWhile (· ≠ ch '\n') with
        | [] => s
        | _ :: rest =>
          match geminiStreamProcessLine sink s with
          | (s, false) => s.fail
          | (s, true) => writeLoop sink n { s with line := [] } rest

/-- The callback takes all or, once it failed, nothing. -/
def geminiStreamWriteCb (sink : Bytes → Bool) (s : GeminiStreamState) (bytes : Bytes) : GeminiStreamState :=
  if s.failed = true then s
  else if llmHttpResponseCap < s.raw.length + bytes.length then s.fail
  else writeLoop sink bytes.length { s with raw := s.raw ++ bytes } bytes

/-- The counters a new attempt starts from. -/
def clearUsage (u : LlmUsage) : LlmUsage :=
  { u with
    inputTokens := 0, outputTokens := 0, totalTokens := 0, providerCachedInputTokens := 0, providerCachedInputTokensReported := false }

def geminiStreamReset (s : GeminiStreamState) : GeminiStreamState :=
  { raw := [], line := [], modelText := [], decoder := llmMessageStreamCreate, usage := s.usage.map clearUsage, failed := false }

def geminiStreamFinish (sink : Bytes → Bool) (s : GeminiStreamState) : GeminiStreamState × Bool :=
  if s.failed = true then (s, false)
  else if s.line = [] then (s, s.modelText ≠ [])
  else
    match geminiStreamProcessLine sink s with
    | (s, false) => (s, false)
    | (s, true) => ({ s with line := [] }, s.modelText ≠ [])

/-- The stream of a call before its first attempt. -/
def geminiStreamStart : GeminiStreamState :=
  geminiStreamReset { raw := [], line := [], modelText := [], decoder := llmMessageStreamCreate, usage := some noUsage, failed := false }

end Floofclaw.Source.GeminiStream
