import Floofclaw.Source.Json
import Mathlib.Data.List.DropRight

/-!
# HTTP/1 messages

Model of `support/http1.c`: the request builder, and the response reader with
its head scan, its chunked decoder and its bounds. A text is read by its length
and may hold NULs. A body buffer of no octets stands for a missing one too. The
sizes of buffers and bodies stay below the range of `size_t`.
-/

set_option autoImplicit false

namespace Floofclaw.Source.Http1
open Floofclaw.Lib Floofclaw.Source.Json

def http1HeadMax : Nat := 16384
def http1ChunkLineMax : Nat := 64

/-! ## Requests -/

/-- `fc_http1_build_request` into a buffer of `cap` octets; `none` when it does not fit. -/
def fcHttp1BuildRequest (cap : Nat) (method path host userAgent : Bytes) (extraHeaders contentType body : Option Bytes) : Option Bytes := do
  let lengthHeader := (body.map fun b => lit "Content-Length: " ++ decNat b.length ++ lit "\r\n").getD []
  guard (lengthHeader.length < 64)
  let typeHeader := if body.isSome then (contentType.map fun t => lit "Content-Type: " ++ t ++ lit "\r\n").getD [] else []
  guard (typeHeader.length < 128)
  let text := method ++ lit " " ++ path ++ lit " HTTP/1.1\r\nHost: " ++ host ++ lit "\r\nUser-Agent: " ++
    (if userAgent = [] then lit "floofclaw" else userAgent) ++ lit "\r\nAccept: */*\r\n" ++
    extraHeaders.getD [] ++ typeHeader ++ lengthHeader ++ lit "\r\n" ++ body.getD []
  guard (text.length < cap)
  return text

/-! ## Response heads -/

def blankLine : Bytes := lit "\r\n\r\n"

/-- `head_end`: the offset just past the blank line. -/
def headEnd : Bytes → Option Nat
  | [] => none
  | c :: s => if blankLine.isPrefixOf (c :: s) then some 4 else (headEnd s).map (· + 1)

/-- `tolower` in the C locale. -/
def lower (c : Byte) : Byte := if 65 ≤ c ∧ c ≤ 90 then c + 32 else c

/-- `ci_equal` with a lower-case word. -/
def ciEqual (a word : Bytes) : Bool := a.map lower = word

/-- What the framing headers said. -/
structure HeadInfo where
  contentLength : Option Nat := none
  chunked : Bool := false
  closeRequested : Bool := false
  bad : Bool := false
  deriving DecidableEq, Repr

/-- The digits of a content length; `none` at another octet or above the bound. -/
def contentLengthOf : Nat → Bytes → Option Nat
  | n, [] => some n
  | n, c :: s =>
    if isDigit c then
      if n * 10 + (c.toNat - 48) > http1HeadMax * 1024 then none else contentLengthOf (n * 10 + (c.toNat - 48)) s
    else none

/-- `scan_head`, and whether the walk stops. -/
def scanHead (name value : Bytes) (h : HeadInfo) : HeadInfo × Bool :=
  if ciEqual name (lit "content-length") then
    match (if value = [] then none else contentLengthOf 0 value) with
    | none => ({ h with bad := true }, true)
    | some n => ({ h with contentLength := some n }, false)
  else if ciEqual name (lit "transfer-encoding") then
    if 7 ≤ value.length ∧ ciEqual (value.drop (value.length - 7)) (lit "chunked") then ({ h with chunked := true }, false)
    else ({ h with bad := true }, false)
  else if ciEqual name (lit "connection") then
    (if ciEqual value (lit "close") then { h with closeRequested := true } else h, false)
  else (h, false)

def isBlank (c : Byte) : Bool := c = ch ' ' || c = ch '\t'

/-- A header value without the white space around it and the CR of its line. -/
def headerValue (s : Bytes) : Bytes := (s.dropWhile isBlank).rdropWhile fun c => c = ch '\r' || isBlank c

/-- `memchr` for a newline: the line in front of it and the text behind. -/
def takeLine (s : Bytes) : Option (Bytes × Bytes) :=
  match s.dropWhile (· ≠ ch '\n') with
  | [] => none
  | _ :: rest => some (s.takeWhile (· ≠ ch '\n'), rest)

def isBlankLine (line : Bytes) : Bool := line = [] || line = [ch '\r']

/-- One line of the head. -/
def scanLine (line : Bytes) (h : HeadInfo) : HeadInfo × Bool :=
  match line.dropWhile (· ≠ ch ':') with
  | [] => (h, false)
  | _ :: value => scanHead (line.takeWhile (· ≠ ch ':')) (headerValue value) h

/-- `for_each_header` with `scan_head`, behind the status line. -/
def scanLines : Nat → Bytes → HeadInfo → HeadInfo
  | 0, _, h => h
  | n + 1, s, h =>
    match takeLine s with
    | none => h
    | some (line, rest) =>
      if isBlankLine line then h
      else
        match scanLine line h with
        | (h, true) => h
        | (h, false) => scanLines n rest h

def scanHeaders (head : Bytes) : HeadInfo :=
  match takeLine head with
  | none => {}
  | some (_, rest) => scanLines rest.length rest {}

/-! ## Chunked bodies -/

def hexOf (c : Byte) : Option Nat :=
  if 48 ≤ c ∧ c ≤ 57 then some (c.toNat - 48)
  else if 97 ≤ c ∧ c ≤ 102 then some (c.toNat - 87)
  else if 65 ≤ c ∧ c ≤ 70 then some (c.toNat - 55)
  else none

inductive Http1Error
  | headTooLong | notHttp | badStatus | badFraming | noBuffer | overCap
  | chunkLineTooLong | badChunkSize | chunkOverCap | emptyChunkSize | noChunkEnd
  deriving DecidableEq, Repr

/-- The size digits of a chunk line, up to an extension or the CR, against the cap of the body. -/
def chunkSize (bodyCap : Nat) : Nat → Bool → Bytes → Except Http1Error Nat
  | size, seen, [] => if seen then .ok size else .error .emptyChunkSize
  | size, seen, c :: s =>
    if c = ch ';' ∨ c = ch '\r' then (if seen then .ok size else .error .emptyChunkSize)
    else
      match hexOf c with
      | none => .error .badChunkSize
      | some v => if size * 16 + v > bodyCap + 1 then .error .chunkOverCap else chunkSize bodyCap (size * 16 + v) true s

/-- The octets of the trailer section with its blank line. -/
def trailerEnd : Nat → Bytes → Option Nat
  | 0, _ => none
  | n + 1, s =>
    match takeLine s with
    | none => none
    | some (line, rest) =>
      if isBlankLine line then some (line.length + 1) else (trailerEnd n rest).map (· + (line.length + 1))

/-- How far the decoder came. -/
inductive Chunked
  | whole (body : Bytes) (consumed : Nat)
  | needMore
  | refused (e : Http1Error)
  deriving DecidableEq, Repr

/-- A body behind some that was already decoded and the octets that took. -/
def Chunked.behind (body : Bytes) (consumed : Nat) : Chunked → Chunked
  | .whole b n => .whole (body ++ b) (consumed + n)
  | r => r

/-- `decode_chunked`; `total` octets are decoded already. -/
def decodeChunked (bodyCap : Nat) : Nat → Nat → Bytes → Chunked
  | 0, _, _ => .needMore
  | n + 1, total, s =>
    match takeLine s with
    | none => .needMore
    | some (line, rest) =>
      if line.length > http1ChunkLineMax then .refused .chunkLineTooLong
      else
        match chunkSize bodyCap 0 false line with
        | .error e => .refused e
        | .ok 0 =>
          match trailerEnd (rest.length + 1) rest with
          | none => .needMore
          | some used => .whole [] (line.length + 1 + used)
        | .ok size =>
          if rest.length < size + 2 then .needMore
          else if total + size > bodyCap then .refused .chunkOverCap
          else if (rest.drop size).take 2 ≠ lit "\r\n" then .refused .noChunkEnd
          else (decodeChunked bodyCap n (total + size) (rest.drop (size + 2))).behind (rest.take size) (line.length + 1 + size + 2)

/-! ## Responses -/

inductive FcHttp1Status
  | needMore | done | bad
  deriving DecidableEq, Repr

/-- The response and the body it leaves in the buffer, when it is whole or runs to the end of the connection. -/
structure FcHttp1Response where
  status : Nat := 0
  keepAlive : Bool := true
  body : Bytes := []
  consumed : Nat := 0
  error : Option Http1Error := none
  deriving DecidableEq, Repr

def refuse (e : Http1Error) (r : FcHttp1Response) : FcHttp1Status × FcHttp1Response := (.bad, { r with error := some e })

/-- `HTTP/1.0` or `HTTP/1.1` and a space. -/
def isHttp1 (buf : Bytes) : Bool := (lit "HTTP/1.0 ").isPrefixOf buf || (lit "HTTP/1.1 ").isPrefixOf buf

/-- The three digits behind the version. -/
def statusCode (buf : Bytes) : Option Nat :=
  match (buf.drop 9).take 3 with
  | [a, b, c] =>
    if isDigit a && isDigit b && isDigit c then some ((a.toNat - 48) * 100 + (b.toNat - 48) * 10 + (c.toNat - 48)) else none
  | _ => none

/-- A status whose response has no body. -/
def isBodiless (status : Nat) : Bool := status = 204 || status = 304 || (100 ≤ status && status < 200)

/-- The body behind a head that was read. -/
def readBody (info : HeadInfo) (headLen cap : Nat) (body : Bytes) (r : FcHttp1Response) : FcHttp1Status × FcHttp1Response :=
  if isBodiless r.status then (.done, { r with consumed := headLen })
  else if info.chunked then
    if cap = 0 then refuse .noBuffer r
    else
      match decodeChunked (cap - 1) (body.length + 1) 0 body with
      | .refused e => refuse e r
      | .needMore => (.needMore, r)
      | .whole b used => (.done, { r with body := b, consumed := headLen + used })
  else
    match info.contentLength with
    | some want =>
      if cap = 0 then refuse .noBuffer r
      else if want + 1 > cap then refuse .overCap r
      else if body.length < want then (.needMore, r)
      else (.done, { r with body := body.take want, consumed := headLen + want })
    | none =>
      if cap = 0 then refuse .noBuffer r
      else if body.length + 1 > cap then refuse .overCap r
      else (.needMore, { r with body := body, consumed := headLen + body.length, keepAlive := false })

/-- `fc_http1_parse_response` into a body buffer of `cap` octets. -/
def fcHttp1ParseResponse (buf : Bytes) (cap : Nat) : FcHttp1Status × FcHttp1Response :=
  match headEnd buf with
  | none => if buf.length > http1HeadMax then refuse .headTooLong {} else (.needMore, {})
  | some headLen =>
    if buf.length < 12 ∨ isHttp1 buf = false then refuse .notHttp {}
    else
      match statusCode buf with
      | none => refuse .badStatus {}
      | some status =>
        let info := scanHeaders (buf.take headLen)
        if info.bad then refuse .badFraming { status := status }
        else
          readBody info headLen cap (buf.drop headLen)
            { status := status, keepAlive := !((lit "HTTP/1.0 ").isPrefixOf buf || info.closeRequested) }

end Floofclaw.Source.Http1
