import Floofclaw.Source.Json
import Floofclaw.Lib.Utf8

/-!
# The message stream of a model reply

Model of `llm/stream.c`: the text of a reply arrives in parts, each feed reads the
whole of it again up to the first message string, and what is new of that string
is handed to a sink. The buffers that grow with a feed are the fields of the
stream; `handed` is what the sink got. The hexadecimal digits, the one-letter
escapes and the octets of a code point are read and written as in `json.c`.
-/

set_option autoImplicit false

namespace Floofclaw.Source.MessageStream
open Floofclaw.Lib Floofclaw.Source.Json

def llmRespMax : Nat := 65536
def streamStackMax : Nat := 32
def streamKeyMax : Nat := 128
def streamDeltaMax : Nat := 512

/-! ## Strings -/

/-- `append_utf8` up to its buffer. -/
def appendUtf8 (cp : Nat) : Option Bytes :=
  if 0xD800 ≤ cp ∧ cp ≤ 0xDFFF then none else if cp ≤ 0x10FFFF then some (utf8Write cp) else none

def utf8Width (c : Byte) : Nat :=
  if c < 0x80 then 1
  else if c &&& 0xE0 = 0xC0 then 2
  else if c &&& 0xF0 = 0xE0 then 3
  else if c &&& 0xF8 = 0xF0 then 4
  else 0

/-- What stands at the read position of a string. -/
inductive ScanItem
  | bad
  /-- The source ends within it. -/
  | short
  | item (out rest : Bytes)

def ScanItem.ofCodePoint (cp : Nat) (rest : Bytes) : ScanItem :=
  match appendUtf8 cp with
  | none => .bad
  | some out => .item out rest

/-- The low half of a surrogate pair. -/
def scanLow (hi : Nat) (s : Bytes) : ScanItem :=
  if s.length < 6 then .short
  else if s.take 2 ≠ lit "\\u" then .bad
  else
    match parseHex4 (s.drop 2) with
    | none => .bad
    | some (low, rest) =>
      if low < 0xDC00 ∨ 0xDFFF < low then .bad else .ofCodePoint (0x10000 + (hi - 0xD800) * 1024 + (low - 0xDC00)) rest

def scanUnicode (s : Bytes) : ScanItem :=
  if s.length < 4 then .short
  else
    match parseHex4 s with
    | none => .bad
    | some (cp, rest) => if 0xD800 ≤ cp ∧ cp ≤ 0xDBFF then scanLow cp rest else .ofCodePoint cp rest

/-- After a backslash. -/
def scanEscape : Bytes → ScanItem
  | [] => .short
  | c :: s =>
    match simpleDecoded c with
    | some d => .item [d] s
    | none => if c = ch 'u' then scanUnicode s else .bad

/-- An octet as it stands, with the ones its width takes. -/
def scanRaw (c : Byte) (s : Bytes) : ScanItem :=
  if c < 0x20 then .bad
  else if utf8Width c = 0 then .bad
  else if s.length + 1 < utf8Width c then .short
  else if (s.take (utf8Width c - 1)).all isCont then .item (c :: s.take (utf8Width c - 1)) (s.drop (utf8Width c - 1))
  else .bad

def scanItem (c : Byte) (s : Bytes) : ScanItem := if c = ch '\\' then scanEscape s else scanRaw c s

inductive Scan
  | bad
  /-- The source ends; what is safely decoded so far. -/
  | partly (out : Bytes)
  | complete (out rest : Bytes)

/-- The loop of `scan_string` behind the opening quote. -/
def scanLoop (outCap : Nat) : Nat → Bytes → Bytes → Scan
  | 0, _, out => .partly out
  | _ + 1, [], out => .partly out
  | n + 1, c :: s, out =>
    if c = ch '"' then .complete out s
    else
      match scanItem c s with
      | .bad => .bad
      | .short => .partly out
      | .item d rest => if outCap < out.length + d.length + 1 then .bad else scanLoop outCap n rest (out ++ d)

def scanString (outCap : Nat) (s : Bytes) : Scan := scanLoop outCap s.length s []

/-! ## The walk to the message -/

inductive CtxKind
  | object | array
  deriving DecidableEq

inductive StreamRole
  | other | root | calls | call | args
  deriving DecidableEq

structure StreamCtx where
  kind : CtxKind
  role : StreamRole
  state : Nat
  callIndex : Int
  callIsMessage : Bool
  key : Bytes

def isWs (c : Byte) : Bool := c == ch ' ' || c == ch '\t' || c == ch '\r' || c == ch '\n'

/-- `skip_ws`. -/
def skipBlanks (s : Bytes) : Bytes := s.dropWhile isWs

/-- One turn of the loop of `inspect_stream`. -/
inductive Turn
  | stops (ok : Bool)
  | goes (stack : List StreamCtx) (rest : Bytes)
  /-- The message string is reached; its opening quote is read. -/
  | message (body : Bytes)

/-- `mark_parent_value_done` at the top of the stack. -/
def valueDone (ctx : StreamCtx) : StreamCtx := { ctx with state := if ctx.kind = .object then 3 else 1 }

def valueIsDoneChar (c : Byte) : Bool := c == ch ',' || c == ch '}' || c == ch ']' || isWs c

/-- The context a bracket opens; the stack has the innermost one first. -/
def childCtx (ctx : StreamCtx) (depth : Nat) (kind : CtxKind) : StreamCtx :=
  let role : StreamRole :=
    if ctx.kind = .object ∧ ctx.role = .root ∧ cstr ctx.key = lit "calls" ∧ kind = .array then .calls
    else if ctx.kind = .array ∧ ctx.role = .calls ∧ kind = .object then .call
    else if ctx.kind = .object ∧ ctx.role = .call ∧ cstr ctx.key = lit "args" ∧ kind = .object then .args
    else .other
  { kind := kind, role := role, state := 0, callIndex := if role = .args then depth - 1 else -1, callIsMessage := false, key := [] }

/-- The string at this position is the message. -/
def isTarget (ctx : StreamCtx) (stack : List StreamCtx) : Bool :=
  ctx.kind = .object && cstr ctx.key = lit "message" &&
    (ctx.role = .root ||
      (ctx.role = .args && 0 ≤ ctx.callIndex && (stack.reverse[ctx.callIndex.toNat]?).any StreamCtx.callIsMessage))

def noteName (ctx : StreamCtx) (value : Bytes) : StreamCtx :=
  if ctx.kind = .object ∧ ctx.role = .call ∧ cstr ctx.key = lit "name" then { ctx with callIsMessage := cstr value = lit "message" }
  else ctx

/-- At the position of a value. -/
def valueTurn (ctx : StreamCtx) (below : List StreamCtx) (c : Byte) (s : Bytes) : Turn :=
  if c = ch '\x7b' ∨ c = ch '[' then
    if streamStackMax ≤ below.length + 1 then .stops false
    else .goes (childCtx ctx (below.length + 1) (if c = ch '\x7b' then .object else .array) :: valueDone ctx :: below) s
  else if c = ch '"' then
    if isTarget ctx (ctx :: below) then .message s
    else
      match scanString streamKeyMax s with
      | .complete value rest => .goes (valueDone (noteName ctx value) :: below) rest
      | _ => .stops true
  else
    match (c :: s).dropWhile fun c => !valueIsDoneChar c with
    | [] => .stops true
    | d :: rest => if valueIsDoneChar c then .stops true else .goes (valueDone ctx :: below) (d :: rest)

/-- Behind blanks; the states are those of the source: 0 for a key or an entry, 1 for a colon or the end of an entry, 2 for
the value of a key, 3 for the end of a member. -/
def tokenTurn (ctx : StreamCtx) (below : List StreamCtx) (c : Byte) (s : Bytes) : Turn :=
  match ctx.kind with
  | .object =>
    if ctx.state = 0 then
      if c = ch '\x7d' then .goes below s
      else if c ≠ ch '"' then .stops true
      else
        match scanString streamKeyMax s with
        | .complete key rest => .goes ({ ctx with key := key, state := 1 } :: below) rest
        | _ => .stops true
    else if ctx.state = 1 then if c = ch ':' then .goes ({ ctx with state := 2 } :: below) s else .stops true
    else if ctx.state = 3 then
      if c = ch ',' then .goes ({ ctx with state := 0 } :: below) s
      else if c = ch '\x7d' then .goes below s
      else .stops true
    else valueTurn ctx below c s
  | .array =>
    if ctx.state = 1 then
      if c = ch ',' then .goes ({ ctx with state := 0 } :: below) s
      else if c = ch ']' then .goes below s
      else .stops true
    else if ctx.state = 0 ∧ c = ch ']' then .goes below s
    else valueTurn ctx below c s

/-- Where the walk ends. -/
inductive Located
  | nothing (ok : Bool)
  | message (body : Bytes)

def locateLoop : Nat → List StreamCtx → Bytes → Located
  | 0, _, _ => .nothing true
  | _ + 1, [], _ => .nothing true
  | n + 1, ctx :: below, s =>
    match skipBlanks s with
    | [] => .nothing true
    | c :: s =>
      match tokenTurn ctx below c s with
      | .stops ok => .nothing ok
      | .message body => .message body
      | .goes stack rest => locateLoop n stack rest

def rootCtx : StreamCtx := { kind := .object, role := .root, state := 0, callIndex := 0, callIsMessage := false, key := [] }

/-- `inspect_stream` up to the message string. -/
def locate (raw : Bytes) : Located :=
  match skipBlanks raw with
  | [] => .nothing true
  | c :: s => if c = ch '\x7b' then locateLoop raw.length [rootCtx] s else .nothing true

/-! ## Feeding -/

structure LlmMessageStream where
  raw : Bytes
  emitted : Nat
  disabled : Bool
  handed : List Bytes

def llmMessageStreamCreate : LlmMessageStream := { raw := [], emitted := 0, disabled := false, handed := [] }

/-- The most octets, up to a number, after which no continuation octet stands. -/
def backUp (s : Bytes) : Nat → Nat
  | 0 => 0
  | n + 1 => if isCont (s.getD (n + 1) 0) then backUp s n else n + 1

def deltaLength (s : Bytes) : Nat := backUp s (min s.length streamDeltaMax)

inductive EmitEnd
  | done | stuck | refused
  deriving DecidableEq

/-- The deltas of a text, up to the one the sink refuses. -/
def emitLoop (sink : Bytes → Bool) : Nat → Bytes → List Bytes × EmitEnd
  | _, [] => ([], .done)
  | 0, _ :: _ => ([], .stuck)
  | n + 1, c :: s =>
    if deltaLength (c :: s) = 0 then ([], .stuck)
    else
      let delta := (c :: s).take (deltaLength (c :: s))
      if sink delta then
        let (deltas, last) := emitLoop sink n ((c :: s).drop (deltaLength (c :: s)))
        (delta :: deltas, last)
      else ([delta], .refused)

/-- `emit_new_text`; the flag is the function's success. -/
def emitNewText (sink : Bytes → Bool) (s : LlmMessageStream) (decoded : Bytes) : LlmMessageStream × Bool :=
  if decoded.length < s.emitted then ({ s with disabled := true }, false)
  else
    match emitLoop sink decoded.length (decoded.drop s.emitted) with
    | (deltas, .done) => ({ s with handed := s.handed ++ deltas, emitted := decoded.length }, true)
    | (deltas, .stuck) => ({ s with handed := s.handed ++ deltas }, false)
    | (deltas, .refused) => ({ s with handed := s.handed ++ deltas, disabled := true }, false)

def inspectStream (sink : Bytes → Bool) (s : LlmMessageStream) : LlmMessageStream × Bool :=
  match locate s.raw with
  | .nothing ok => (s, ok)
  | .message body =>
    match scanString llmRespMax body with
    | .bad => (s, true)
    | .partly decoded => emitNewText sink s decoded
    | .complete decoded _ => emitNewText sink s decoded

def llmMessageStreamFeed (sink : Bytes → Bool) (s : LlmMessageStream) (bytes : Bytes) : LlmMessageStream × Bool :=
  if s.disabled then (s, false)
  else if bytes = [] then (s, true)
  else if llmRespMax < s.raw.length + bytes.length + 1 then ({ s with disabled := true }, false)
  else inspectStream sink { s with raw := s.raw ++ bytes }

/-- A reply that is fed in parts to a sink that takes every delta. -/
def feedAll (chunks : List Bytes) : LlmMessageStream :=
  chunks.foldl (fun s bytes => (llmMessageStreamFeed (fun _ => true) s bytes).1) llmMessageStreamCreate

end Floofclaw.Source.MessageStream
